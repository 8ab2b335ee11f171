import Zectl.Libze.Property
import Zectl.Systemdboot.Entry

/-!
# Default properties

`libze_default_props_set` and the plugin's `add_default_properties` both complete the
properties of the handle: what is there stays, and a default that is missing is added. The
first takes only the defaults of one namespace, which it cuts off at the last colon.
-/

namespace Zectl.Systemdboot.Defaults

open Zectl.Lib.PathOrder Zectl.Lib.KeyedList Zectl.Util.CString Zectl.Zfs.System
open Zectl.Systemdboot.Entry

/-- `libze_default_prop_add` with the list it leaves. -/
def libzeDefaultPropAdd (propOut : List (CStr × CStr)) (name value ns : CStr) :
    LibzeError × List (CStr × CStr) :=
  let (code, nameBuf) := libzeUtilConcat ns ":" name zfsMaxproplen
  if code ≠ 0 then (.unknown, propOut) else (.success, put propOut (nameBuf, value))

/-- The inner loop of `libze_default_props_set`, which looks for the name. -/
def zePropUnset (nvpName : CStr) : List (CStr × CStr) → Bool
  | [] => true
  | zePair :: rest => if zePair.1 = nvpName then false else zePropUnset nvpName rest

/-- `libze_default_props_set` with the properties it leaves. -/
def libzeDefaultPropsSet (ns : CStr) :
    List (CStr × CStr) → List (CStr × CStr) → LibzeError × List (CStr × CStr)
  | [], zeProps => (.success, zeProps)
  | pair :: rest, zeProps =>
    let (code, buf) := libzeUtilCut pair.1 zfsMaxproplen ':'
    if code ≠ 0 then (.unknown, zeProps)
    else if buf ≠ ns then libzeDefaultPropsSet ns rest zeProps
    else if zePropUnset pair.1 zeProps then libzeDefaultPropsSet ns rest (put zeProps pair)
    else libzeDefaultPropsSet ns rest zeProps

/-- `systemdboot_properties` -/
def systemdbootProperties : List (CStr × CStr) :=
  [("efi", "/efi"), ("boot", "/boot"), ("kernelsnapshotdirectory", "/zectl/systemdboot")]

/-- The loop of `libze_plugin_systemdboot_defaults`. -/
def addAll (ns : CStr) : List (CStr × CStr) → List (CStr × CStr) → LibzeError × List (CStr × CStr)
  | [], properties => (.success, properties)
  | (name, value) :: rest, properties =>
    match libzeDefaultPropAdd properties name value ns with
    | (.success, properties) => addAll ns rest properties
    | (_, properties) => (.unknown, properties)

/-- `libze_plugin_systemdboot_defaults` -/
def libzePluginSystemdbootDefaults : LibzeError × List (CStr × CStr) :=
  addAll namespaceBuf systemdbootProperties []

/-- The loop of `add_default_properties`. -/
def addMissing : List (CStr × CStr) → List (CStr × CStr) → List (CStr × CStr)
  | [], zeProps => zeProps
  | pair :: rest, zeProps =>
    if pair.1 ∈ zeProps.map Prod.fst then addMissing rest zeProps
    else addMissing rest (put zeProps pair)

/-- `add_default_properties` with the properties it leaves. -/
def addDefaultProperties (zeProps : List (CStr × CStr)) : LibzeError × List (CStr × CStr) :=
  match libzePluginSystemdbootDefaults with
  | (.success, defaults) => (.success, addMissing defaults zeProps)
  | (ret, _) => (ret, zeProps)

/-- The default is one of the namespace: the rest of its name has no colon. -/
def DefaultOf (ns name : CStr) : Prop := ∃ rest, name = ns ++ ':' :: rest ∧ ':' ∉ rest

/-- What was there stays, what is missing of the namespace is added, and nothing else is. -/
structure Completes (ns : CStr) (defaults before after : List (CStr × CStr)) : Prop where
  unique : (after.map Prod.fst).Nodup
  old : ∀ e ∈ before, e ∈ after
  new : ∀ e ∈ defaults, DefaultOf ns e.1 → e.1 ∉ before.map Prod.fst → e ∈ after
  only : ∀ e ∈ after, e ∈ before ∨ e ∈ defaults ∧ DefaultOf ns e.1 ∧ e.1 ∉ before.map Prod.fst

/-- The lists hold the same values under the same names. -/
def SameValues (l l' : List (CStr × CStr)) : Prop := ∀ name, value l name = value l' name

section Loops
variable {ns name : CStr} {defaults zeProps after : List (CStr × CStr)}

/-- The names the loop takes for the namespace. -/
def ofNamespace (ns name : CStr) : Bool := libzeUtilCut name zfsMaxproplen ':' = (0, ns)

/-- The loop goes on behind the name. -/
def goesOn (name : CStr) : Bool := (libzeUtilCut name zfsMaxproplen ':').1 = 0

theorem ofNamespace_iff (hgo : goesOn name = true) :
    ofNamespace ns name = true ↔ DefaultOf ns name := by
  have hcut : libzeUtilCut name zfsMaxproplen ':' = (0, (libzeUtilCut name zfsMaxproplen ':').2) :=
    Prod.ext (of_decide_eq_true hgo) rfl
  have hshort := (libzeUtilCut_eq_ok_iff.mp hcut).1
  rw [ofNamespace, decide_eq_true_iff, libzeUtilCut_eq_ok_iff]
  exact and_iff_right hshort

theorem zePropUnset_iff : zePropUnset name zeProps = true ↔ name ∉ zeProps.map Prod.fst := by
  induction zeProps with
  | nil => simp [zePropUnset]
  | cons e rest ih =>
    rw [zePropUnset, List.map_cons, List.mem_cons, not_or]
    by_cases he : e.1 = name
    · simp [he]
    · rw [if_neg he, ih]
      simp [Ne.symm he]

/-- The loop completes the list, up to the first name it cannot cut. -/
theorem libzeDefaultPropsSet_eq : libzeDefaultPropsSet ns defaults zeProps =
    (if ∀ e ∈ defaults, goesOn e.1 = true then .success else .unknown,
      complete (ofNamespace ns) (defaults.takeWhile fun e => goesOn e.1) zeProps) := by
  induction defaults generalizing zeProps with
  | nil => rfl
  | cons e rest ih =>
    rw [libzeDefaultPropsSet]
    dsimp only
    by_cases hgo : goesOn e.1 = true
    · have hcode : (libzeUtilCut e.1 zfsMaxproplen ':').1 = 0 := of_decide_eq_true hgo
      have hns : (libzeUtilCut e.1 zfsMaxproplen ':').2 = ns ↔ ofNamespace ns e.1 = true := by
        rw [ofNamespace, decide_eq_true_iff, Prod.ext_iff]
        exact (and_iff_right hcode).symm
      rw [if_neg (not_not.mpr hcode), List.takeWhile_cons, if_pos hgo, complete]
      simp only [List.forall_mem_cons, hgo, true_and, ih, zePropUnset_iff, Ne, hns]
      by_cases hof : ofNamespace ns e.1 = true
      · rw [if_neg (not_not.mpr hof)]
        simp only [hof, true_and]
        split <;> rfl
      · have hadd : ¬ (ofNamespace ns e.1 = true ∧ e.1 ∉ zeProps.map Prod.fst) := fun h => hof h.1
        rw [if_pos hof, if_neg hadd]
    · have hcode : ¬ (libzeUtilCut e.1 zfsMaxproplen ':').1 = 0 := fun hcode =>
        hgo (decide_eq_true hcode)
      have hall : ¬ ∀ f ∈ e :: rest, goesOn f.1 = true := fun hall => hgo (hall e List.mem_cons_self)
      rw [if_pos hcode, if_neg hall, List.takeWhile_cons, if_neg hgo]
      rfl

theorem libzeDefaultPropsSet_success (h : libzeDefaultPropsSet ns defaults zeProps = (.success, after)) :
    (∀ e ∈ defaults, goesOn e.1 = true) ∧ after = complete (ofNamespace ns) defaults zeProps := by
  rw [libzeDefaultPropsSet_eq, Prod.mk.injEq] at h
  have hall : ∀ e ∈ defaults, goesOn e.1 = true := by
    by_contra hnot
    rw [if_neg hnot] at h
    exact absurd h.1 (by decide)
  rw [List.takeWhile_eq_self_iff.mpr hall] at h
  exact ⟨hall, h.2.symm⟩

theorem addMissing_eq : addMissing defaults zeProps = complete (fun _ => true) defaults zeProps := by
  induction defaults generalizing zeProps with
  | nil => rfl
  | cons e rest ih =>
    rw [addMissing, complete, ih, ih]
    by_cases hmem : e.1 ∈ zeProps.map Prod.fst
    · rw [if_pos hmem, if_neg (fun hadd => hadd.2 hmem)]
    · rw [if_neg hmem, if_pos ⟨rfl, hmem⟩]

end Loops

section Completion
variable {ns : CStr} {defaults zeProps after : List (CStr × CStr)}

theorem completes (hze : (zeProps.map Prod.fst).Nodup) (hdef : (defaults.map Prod.fst).Nodup)
    (h : libzeDefaultPropsSet ns defaults zeProps = (.success, after)) :
    Completes ns defaults zeProps after := by
  obtain ⟨hgo, rfl⟩ := libzeDefaultPropsSet_success h
  have hunique := @nodup_complete _ _ _ _ (ofNamespace ns) defaults hze
  constructor
  · exact hunique
  · intro e he
    rw [mem_iff_value hunique, value_complete, (mem_iff_value hze).mp he, Option.some_or]
  · intro e he hof hnew
    rw [mem_iff_value hunique, value_complete, value_eq_none.mpr hnew, Option.none_or,
      if_pos ((ofNamespace_iff (hgo e he)).mpr hof)]
    exact (mem_iff_value hdef).mp he
  · intro e he
    rw [mem_iff_value hunique, value_complete, Option.or_eq_some_iff] at he
    obtain hold | ⟨hnone, hnew⟩ := he
    · exact .inl ((mem_iff_value hze).mpr hold)
    · obtain ⟨hof, hvalue⟩ := Option.ite_none_right_eq_some.mp hnew
      have hmem := (mem_iff_value hdef).mpr hvalue
      exact .inr ⟨hmem, (ofNamespace_iff (hgo e hmem)).mp hof, value_eq_none.mp hnone⟩

/-- After a success the defaults are all there. -/
theorem libzeDefaultPropsSet_again (h : libzeDefaultPropsSet ns defaults zeProps = (.success, after)) :
    libzeDefaultPropsSet ns defaults after = (.success, after) := by
  obtain ⟨hgo, rfl⟩ := libzeDefaultPropsSet_success h
  rw [libzeDefaultPropsSet_eq, if_pos hgo, List.takeWhile_eq_self_iff.mpr hgo, complete_complete]

/-- The plugin's defaults can be formed, and all of them are of its namespace. -/
theorem pluginDefaults : ∃ defaults, libzePluginSystemdbootDefaults = (.success, defaults) ∧
    ∀ e ∈ defaults, ofNamespace namespaceBuf e.1 = true := by
  refine ⟨_, rfl, ?_⟩
  apply List.all_eq_true.mp
  decide +kernel

theorem addDefaultProperties_eq : ∃ pluginDefaults,
    (∀ zeProps, addDefaultProperties zeProps =
      (.success, complete (fun _ => true) pluginDefaults zeProps)) ∧
    ∀ e ∈ pluginDefaults, ofNamespace namespaceBuf e.1 = true := by
  obtain ⟨defaults, hrun, hof⟩ := pluginDefaults
  refine ⟨defaults, fun zeProps => ?_, hof⟩
  rw [addDefaultProperties, hrun]
  show (LibzeError.success, addMissing defaults zeProps) = _
  rw [addMissing_eq]

/-- A name is of one namespace only. -/
theorem ofNamespace_apart {name : CStr} (hne : ns ≠ namespaceBuf)
    (hof : ofNamespace namespaceBuf name = true) : ofNamespace ns name = false := by
  rw [ofNamespace, decide_eq_true_iff] at hof
  rw [ofNamespace, decide_eq_false_iff_not, hof]
  exact fun heq => hne (Prod.mk.inj heq).2.symm

/-- The order of the two does not matter for another namespace. -/
theorem defaults_comm (hne : ns ≠ namespaceBuf) (defaults zeProps : List (CStr × CStr)) :
    SameValues (addDefaultProperties (libzeDefaultPropsSet ns defaults zeProps).2).2
      (libzeDefaultPropsSet ns defaults (addDefaultProperties zeProps).2).2 := by
  obtain ⟨plugin, hadd, hof⟩ := addDefaultProperties_eq
  intro name
  rw [hadd, hadd, libzeDefaultPropsSet_eq, libzeDefaultPropsSet_eq]
  refine (value_complete_comm fun f hf hp => ?_).symm
  rw [ofNamespace_apart hne (hof f hf)] at hp
  cases hp

end Completion

/-- Setting the defaults of a namespace completes the properties, once and for all, and for a
namespace other than the plugin's it can be done before or after the plugin adds its own. -/
theorem defaults_complete {zeProps defaults : List (CStr × CStr)}
    (hze : (zeProps.map Prod.fst).Nodup) (hdef : (defaults.map Prod.fst).Nodup) (ns : CStr) :
    (∀ after, libzeDefaultPropsSet ns defaults zeProps = (.success, after) →
      Completes ns defaults zeProps after ∧
      libzeDefaultPropsSet ns defaults after = (.success, after)) ∧
    (ns ≠ namespaceBuf →
      SameValues (addDefaultProperties (libzeDefaultPropsSet ns defaults zeProps).2).2
        (libzeDefaultPropsSet ns defaults (addDefaultProperties zeProps).2).2) := by
  constructor
  · intro after hset
    exact ⟨completes hze hdef hset, libzeDefaultPropsSet_again hset⟩
  · exact fun hne => defaults_comm hne defaults zeProps

/-- The defaults of the program, over a list that has one of them. -/
theorem defaults_complete_program : (∀ after, libzeDefaultPropsSet zePropNamespace
      [("org.zectl:bootloader", ""), ("org.zectl:bootpoolroot", "")]
      [("org.zectl:bootloader", "systemdboot")] = (.success, after) →
      Completes zePropNamespace [("org.zectl:bootloader", ""), ("org.zectl:bootpoolroot", "")]
        [("org.zectl:bootloader", "systemdboot")] after ∧
      libzeDefaultPropsSet zePropNamespace
        [("org.zectl:bootloader", ""), ("org.zectl:bootpoolroot", "")] after = (.success, after)) ∧
    (zePropNamespace ≠ namespaceBuf →
      SameValues (addDefaultProperties (libzeDefaultPropsSet zePropNamespace
        [("org.zectl:bootloader", ""), ("org.zectl:bootpoolroot", "")]
        [("org.zectl:bootloader", "systemdboot")]).2).2
        (libzeDefaultPropsSet zePropNamespace
          [("org.zectl:bootloader", ""), ("org.zectl:bootpoolroot", "")]
          (addDefaultProperties [("org.zectl:bootloader", "systemdboot")]).2).2) :=
  defaults_complete (by decide +kernel) (by decide +kernel) zePropNamespace

end Zectl.Systemdboot.Defaults
