import Zectl.Lib.ThreeDigits
import Zectl.Libze.Canmount

/-!
# The properties of a clone

`libze_clone` reads each property as text and sets that text on the clone. Without the literal
flag the text of a number has three digits and a unit, so what arrives is a number that is
written the same way.
-/

namespace Zectl.Libze.CloneProps

open Zectl.Lib.StateRun Zectl.Lib.Visit Zectl.Lib.ThreeDigits Zectl.Lib.KeyedList Zectl.Util.CString
open Zectl.Zfs.System Zectl.Zfs.Steps Zectl.Zfs.Forest Zectl.Libze.Sample Zectl.Libze.Clone
open Zectl.Libze.Canmount

/-- The property has the value on the dataset itself, set there or received. -/
def OwnValue (host : Host) (s : Sys) (n : CStr) (p : ZfsProp) (v : CStr) : Prop :=
  ∃ src, s.propValue host n p = some (v, src) ∧ (src = .localSet ∨ src = .received)

/-- A native property that the clone is to take over. -/
def Copied (host : Host) (p : ZfsProp) : Prop :=
  p ∈ host.nativeProps ∧ host.zfsPropReadonly p = false ∧ p ≠ .canmount

/-- The dataset has the own properties of another, and besides canmount no other. -/
structure CopiesProps (host : Host) (s : Sys) (n : CStr) (d : Dataset) : Prop where
  kept : ∀ p, Copied host p → ∀ v, OwnValue host s n p v →
    (d.entry p).map PropEntry.value = some v
  only : ∀ e ∈ d.props, e.prop = .canmount ∨ ∃ v, OwnValue host s n e.prop v

/-- The datasets that a clone is made of, in the order of the clones. -/
def sources (s : Sys) (recursive : Bool) (root : CStr) : List CStr :=
  if recursive then subtree s root else [root]

/-- What the run added are clones with the properties of their sources. -/
def ClonesProps (host : Host) (s t : Sys) (names : List CStr) : Prop :=
  ∃ made, t.datasets = s.datasets ++ made ∧ List.Forall₂ (CopiesProps host s) names made

/-- `zfs_prop_get` does not fail for a property the dataset has. -/
def ReadsOwn (host : Host) : Prop :=
  ∀ s n p v, OwnValue host s n p v → host.answer s (.zfs (.propGet n p)) = 0

/-- How libzfs writes and reads the values of the datasets: a number to three digits and as
what these denote, any other value as it is. -/
structure Rounds (host : Host) (s : Sys) (numeric : ZfsProp → Prop) : Prop where
  number : ∀ d ∈ s.datasets, ∀ e ∈ d.props, numeric e.prop → ∃ k < 2 ^ 64, e.value = decimal k ∧
    host.propStore e.prop (host.propText e.prop e.value) = decimal (rounded k)
  text : ∀ d ∈ s.datasets, ∀ e ∈ d.props, ¬ numeric e.prop →
    host.propStore e.prop (host.propText e.prop e.value) = e.value
  short : ∀ d ∈ s.datasets, ∀ e ∈ d.props,
    (host.propText e.prop e.value).length < zfsMaxproplen

/-- The value comes through its text unchanged. -/
def Survives (host : Host) (p : ZfsProp) (v : CStr) : Prop :=
  host.propStore p ((host.propText p v).take (zfsMaxproplen - 1)) = v

/-! ## What is collected for a dataset -/

/-- The text with which the callback adds a property. -/
def clonedText (host : Host) (s : Sys) (n : CStr) (p : ZfsProp) : Option CStr :=
  if host.zfsPropReadonly p then none
  else if p = .canmount then some "noauto"
  else match s.propValue host n p with
    | none => none
    | some (value, src) =>
      if src ≠ .localSet ∧ src ≠ .received then none
      else some ((host.propText p value).take (zfsMaxproplen - 1))

section Collect
variable {host : Host} {s t u : Sys} {n : CStr} {p : ZfsProp} {v : CStr} {props : DsProps}

/-- An own value is an entry of the dataset. -/
theorem ownValue_iff : OwnValue host s n p v ↔ p ≠ .origin ∧ ∃ d e, s.find n = some d ∧
    d.entry p = some e ∧ e.value = v ∧ (e.source = .localSet ∨ e.source = .received) := by
  unfold OwnValue Sys.propValue
  cases s.find n with
  | none => simp
  | some d =>
    by_cases horigin : p = .origin
    · subst horigin
      cases d.origin <;> simp
    · cases hentry : d.entry p with
      | none =>
        cases p <;> simp_all
      | some e =>
        cases p <;> simp_all

theorem clonedText_own (hne : p ≠ .canmount) {w : CStr} : clonedText host s n p = some w ↔
    host.zfsPropReadonly p = false ∧
      ∃ v, OwnValue host s n p v ∧ w = (host.propText p v).take (zfsMaxproplen - 1) := by
  unfold clonedText OwnValue
  cases host.zfsPropReadonly p with
  | true => simp
  | false =>
    rw [if_neg (by decide), if_neg hne, and_iff_right rfl]
    cases s.propValue host n p with
    | none => simp
    | some r =>
      obtain ⟨value, src⟩ := r
      cases src <;> simp [eq_comm]

theorem clonedText_samePools (h : SamePools s t) : clonedText host t n p = clonedText host s n p := by
  by_cases hreadonly : host.zfsPropReadonly p = true
  · unfold clonedText
    rw [if_pos hreadonly, if_pos hreadonly]
  by_cases hcanmount : p = .canmount
  · unfold clonedText
    rw [if_neg hreadonly, if_neg hreadonly, if_pos hcanmount, if_pos hcanmount]
  unfold clonedText Sys.propValue
  rw [if_neg hreadonly, if_neg hreadonly, if_neg hcanmount, if_neg hcanmount, h.find]
  cases s.find n with
  | none => rfl
  | some d =>
    cases hentry : d.entry p with
    | none => cases p <;> simp [hentry]
    | some e => cases p <;> simp [hentry]

/-- What one callback adds, in any state with the same pools. -/
theorem clonePropCb_run (hread : ReadsOwn host) (h : SamePools s u) :
    (clonePropCb host n props p u).1 =
      match clonedText host s n p with
      | none => props
      | some w => put props (p, w) := by
  rw [← clonedText_samePools h]
  unfold clonePropCb clonedText
  by_cases hreadonly : host.zfsPropReadonly p = true
  · rw [if_pos hreadonly, if_pos hreadonly]
    rfl
  rw [if_neg hreadonly, if_neg hreadonly]
  by_cases hcanmount : p = .canmount
  · rw [if_pos hcanmount, if_pos hcanmount, hcanmount]
    rfl
  rw [if_neg hcanmount, if_neg hcanmount, run_bind]
  have hsame := Issues.samePools (@issues_call host IsLookup (.zfs (.propGet n p)) trivial) u
  by_cases hcode : (call host (.zfs (.propGet n p)) u).1 = 0
  · rw [if_neg (not_not.mpr hcode), run_get_bind]
    have hcopy := @clonedText_samePools host u _ n p hsame
    unfold clonedText at hcopy
    rw [if_neg hreadonly, if_neg hreadonly, if_neg hcanmount, if_neg hcanmount] at hcopy
    rw [← hcopy]
    cases Sys.propValue host (call host (.zfs (.propGet n p)) u).2 n p with
    | none => rfl
    | some r =>
      dsimp only
      split <;> rfl
  · rw [if_pos hcode]
    have hnone : ∀ v, ¬ OwnValue host u n p v := fun v hv => hcode (hread u n p v hv)
    cases hvalue : u.propValue host n p with
    | none => rfl
    | some r =>
      obtain ⟨value, src⟩ := r
      have hsrc : src ≠ .localSet ∧ src ≠ .received :=
        ⟨fun h => hnone value ⟨src, hvalue, .inl h⟩, fun h => hnone value ⟨src, hvalue, .inr h⟩⟩
      dsimp only
      rw [if_pos hsrc]
      rfl

/-- An entry of the collected list holds what the callback adds for its dataset. -/
structure Collected (host : Host) (s : Sys) (e : CStr × DsProps) : Prop where
  told : ∀ q ∈ e.2, clonedText host s e.1 q.1 = some q.2
  complete : ∀ p ∈ host.nativeProps, ∀ w, clonedText host s e.1 p = some w → (p, w) ∈ e.2

theorem foldl_clonePropCb (hread : ReadsOwn host) (natives : List ZfsProp) (h : SamePools s u)
    (htold : ∀ q ∈ props, clonedText host s n q.1 = some q.2) :
    (∀ q ∈ (natives.foldlM (clonePropCb host n) props u).1, clonedText host s n q.1 = some q.2) ∧
    (∀ q ∈ props, q ∈ (natives.foldlM (clonePropCb host n) props u).1) ∧
    ∀ p ∈ natives, ∀ w, clonedText host s n p = some w →
      (p, w) ∈ (natives.foldlM (clonePropCb host n) props u).1 := by
  induction natives generalizing props u with
  | nil => exact ⟨htold, fun q hq => hq, fun p hp => absurd hp List.not_mem_nil⟩
  | cons p rest ih =>
    rcases hrun : clonePropCb host n props p u with ⟨props', v⟩
    have hprops' := @clonePropCb_run host s u n p props hread h
    rw [hrun] at hprops'
    have hsame : SamePools s v := h.trans (Issues.samePools_of (clonePropCb_issues n props p) hrun)
    have hstep : (∀ q ∈ props', clonedText host s n q.1 = some q.2) ∧ (∀ q ∈ props, q ∈ props') ∧
        ∀ w, clonedText host s n p = some w → (p, w) ∈ props' := by
      cases htext : clonedText host s n p with
      | none =>
        rw [htext] at hprops'
        dsimp only at hprops'
        rw [hprops']
        exact ⟨htold, fun q hq => hq, fun w hw => absurd hw (by simp)⟩
      | some w =>
        rw [htext] at hprops'
        dsimp only at hprops'
        rw [hprops']
        refine ⟨?_, ?_, ?_⟩
        · intro q hq
          obtain hq | hq := List.mem_append.mp hq
          · exact htold q (List.mem_filter.mp hq).1
          · rw [List.mem_singleton.mp hq]
            exact htext
        · intro q hq
          by_cases hkey : q.1 = p
          · have hvalue := htold q hq
            rw [hkey, htext, Option.some.injEq] at hvalue
            exact List.mem_append_right _ (List.mem_singleton.mpr (Prod.ext hkey hvalue.symm))
          · exact mem_put.mpr (.inl ⟨hq, hkey⟩)
        · intro w' hw'
          rw [← Option.some.inj hw']
          exact List.mem_append_right _ List.mem_cons_self
    obtain ⟨htold', hkeep, hadd⟩ := hstep
    obtain ⟨hall, hstay, hrest⟩ := ih hsame htold'
    rw [List.foldlM_cons, run_bind, hrun]
    refine ⟨hall, fun q hq => hstay q (hkeep q hq), ?_⟩
    intro p' hp' w hw
    obtain rfl | hp' := List.mem_cons.mp hp'
    · exact hstay _ (hadd w hw)
    · exact hrest p' hp' w hw

/-- The list that `libze_clone` collects. -/
theorem libzeCloneCb_collected (hread : ReadsOwn host) (recursive : Bool) (depth : Nat) (zhdl : CStr)
    {outnvl : List (CStr × DsProps)} (h : SamePools s u) (hout : ∀ e ∈ outnvl, Collected host s e) :
    ∀ e ∈ (libzeCloneCb host recursive depth zhdl outnvl u).1.2, Collected host s e := by
  induction depth generalizing zhdl outnvl u with
  | zero => exact hout
  | succ depth ih =>
    rcases hprops : host.nativeProps.foldlM (clonePropCb host zhdl) [] u with ⟨props, v⟩
    have hsame : SamePools s v := h.trans (Issues.samePools_of
      (moves_foldlM (fun _ _ _ => clonePropCb_issues _ _ _) _) hprops)
    obtain ⟨htold, -, hcomplete⟩ := @foldl_clonePropCb host s u zhdl [] hread host.nativeProps h
      fun q hq => absurd hq List.not_mem_nil
    rw [hprops] at htold hcomplete
    have hadd : ∀ e ∈ put outnvl (zhdl, props), Collected host s e := by
      intro e he
      obtain he | he := List.mem_append.mp he
      · exact hout e (List.mem_filter.mp he).1
      · rw [List.mem_singleton.mp he]
        exact ⟨htold, hcomplete⟩
    rw [libzeCloneCb, run_bind, hprops]
    dsimp only
    split
    · rw [run_get_bind, run_bind]
      have hgather := gather_keeps_in (f := libzeCloneCb host recursive depth) (SamePools s)
        (fun out => ∀ e ∈ out, Collected host s e)
        (fun c _ out u hu hout => ⟨ih c hu hout, hu.trans
          ((libzeCloneCb_issues recursive depth c out).samePools u)⟩)
        (l := childFilesystems v zhdl) (s := v) hsame hadd
      split
      · exact hgather
      · exact hgather
    · exact hadd

end Collect

/-! ## What the clones get -/

section Made
variable {host : Host} {s t : Sys} {d : Dataset} {e : CStr × DsProps}

/-- The dataset has the properties of the list, as they are stored. -/
def Stores (host : Host) (e : CStr × DsProps) (d : Dataset) : Prop :=
  d.props = (e.2.map host.store).map fun p => ⟨p.1, p.2, .localSet⟩

theorem cloneDatasets_made {root suffix be : CStr} {items : List (CStr × DsProps)}
    (hr : cloneDatasets host root suffix be items s = (.success, t)) :
    ∃ made, t.datasets = s.datasets ++ made ∧ List.Forall₂ (Stores host) items made := by
  induction items generalizing s with
  | nil =>
    cases hr
    exact ⟨[], (List.append_nil _).symm, .nil⟩
  | cons e rest ih =>
    rw [cloneDatasets] at hr
    cases hchild : cloneChildName root be e.1 with
    | error message =>
      rw [hchild] at hr
      cases hr
    | ok target =>
      rw [hchild] at hr
      rcases hcat : libzeUtilConcat e.1 "@" suffix zfsMaxDatasetNameLen with ⟨code, snap⟩
      rw [hcat] at hr
      dsimp only at hr
      split at hr
      · cases hr
      obtain ⟨opened, u, hopen, hr⟩ := bind_run hr
      have hlook := zfsOpen_samePools hopen
      split at hr
      · cases hr
      obtain ⟨cloned, v, hcall, hr⟩ := bind_run hr
      split at hr
      · cases hr
      rename_i hcloned
      rw [not_not.mp hcloned] at hcall
      obtain ⟨made, hmade, hall⟩ := ih hr
      let clone : Dataset := {
        name := target
        origin := some snap
        props := (e.2.map host.store).map fun p => ⟨p.1, p.2, .localSet⟩ }
      have hadded : v.datasets = s.datasets ++ [clone] := by
        rw [(call_done hcall).2, ← hlook.datasets]
        rfl
      have hclone : Stores host e clone := rfl
      refine ⟨clone :: made, ?_, .cons hclone hall⟩
      rw [hmade, hadded, List.append_assoc, List.singleton_append]

/-- The value of a property on the clone. -/
theorem entry_stores (hd : Stores host e d) (p : ZfsProp) :
    (d.entry p).map PropEntry.value =
      (e.2.find? fun q => q.1 = p).map fun q => host.propStore q.1 q.2 := by
  rw [Dataset.entry, hd, List.map_map, List.find?_map, Option.map_map]
  rfl

theorem value_of_text (he : Collected host s e) (hd : Stores host e d) {p : ZfsProp}
    (hp : p ∈ host.nativeProps) {w : CStr} (hw : clonedText host s e.1 p = some w) :
    (d.entry p).map PropEntry.value = some (host.propStore p w) := by
  rw [entry_stores hd]
  cases hfind : e.2.find? fun q => q.1 = p with
  | none =>
    have hmem := he.complete p hp w hw
    exact absurd (decide_eq_true rfl) (List.find?_eq_none.mp hfind _ hmem)
  | some q =>
    have hkey : q.1 = p := by simpa using List.find?_some hfind
    have htold := he.told q (List.mem_of_find?_eq_some hfind)
    rw [hkey, hw, Option.some.injEq] at htold
    rw [Option.map_some, hkey, htold]

/-- A clone takes over the properties of its source exactly when their values survive. -/
theorem copiesProps_iff (he : Collected host s e) (hd : Stores host e d) :
    CopiesProps host s e.1 d ↔
      ∀ p, Copied host p → ∀ v, OwnValue host s e.1 p v → Survives host p v := by
  have hvalue : ∀ p, Copied host p → ∀ v, OwnValue host s e.1 p v →
      (d.entry p).map PropEntry.value =
        some (host.propStore p ((host.propText p v).take (zfsMaxproplen - 1))) :=
    fun p hp v hv => value_of_text he hd hp.1 ((clonedText_own hp.2.2).mpr ⟨hp.2.1, v, hv, rfl⟩)
  constructor
  · intro h p hp v hv
    have hkept := h.kept p hp v hv
    rw [hvalue p hp v hv, Option.some.injEq] at hkept
    exact hkept
  · intro h
    constructor
    · intro p hp v hv
      rw [hvalue p hp v hv]
      exact congrArg some (h p hp v hv)
    · intro entry hentry
      rw [hd, List.map_map] at hentry
      obtain ⟨q, hq, rfl⟩ := List.mem_map.mp hentry
      show q.1 = .canmount ∨ ∃ v, OwnValue host s e.1 q.1 v
      by_cases hcanmount : q.1 = .canmount
      · exact .inl hcanmount
      obtain ⟨-, v, hv, -⟩ := (clonedText_own hcanmount).mp (he.told q hq)
      exact .inr ⟨v, hv⟩

theorem forall₂_iff {items : List (CStr × DsProps)} {made : List Dataset}
    (hitems : ∀ e ∈ items, Collected host s e) (hmade : List.Forall₂ (Stores host) items made) :
    List.Forall₂ (CopiesProps host s) (items.map Prod.fst) made ↔
      ∀ n ∈ items.map Prod.fst, ∀ p, Copied host p → ∀ v, OwnValue host s n p v →
        Survives host p v := by
  induction hmade with
  | nil => simp
  | @cons e d items made hstores hmade ih =>
    rw [List.map_cons, List.forall₂_cons, List.forall_mem_cons,
      copiesProps_iff (hitems e List.mem_cons_self) hstores,
      ih fun f hf => hitems f (List.mem_cons_of_mem e hf)]

/-- The clones have the properties of their sources exactly when all own values survive. -/
theorem clonesProps_of_run {root suffix be : CStr} {recursive : Bool} (hs : IsForest s.names)
    (hread : ReadsOwn host)
    (hr : libzeClone host root suffix be recursive s = (.success, t)) :
    ClonesProps host s t (sources s recursive root) ↔
      ∀ n ∈ sources s recursive root, ∀ p, Copied host p → ∀ v, OwnValue host s n p v →
        Survives host p v := by
  unfold libzeClone at hr
  obtain ⟨opened, u, hopen, hr⟩ := bind_run hr
  have hu := zfsOpen_samePools hopen
  split at hr
  · cases hr
  rw [run_get_bind] at hr
  obtain ⟨v, cdata, hcb, hv, hkeys⟩ := @collected host u recursive root (hu.names ▸ hs)
  have hall := @libzeCloneCb_collected host s u hread recursive (recursionDepth u) root [] hu
    fun e he => absurd he List.not_mem_nil
  rw [run_bind, hcb] at hr
  rw [hcb] at hall
  dsimp only at hr
  rw [if_neg (by decide)] at hr
  have hsources : cdata.map Prod.fst = sources s recursive root := by
    have hkids : childFilesystems u = childFilesystems s := by
      funext x
      rw [childFilesystems, children, hu.names]
      rfl
    rw [hkeys, sources, subtree, subtree, hkids, recursionDepth, recursionDepth, maxNameLength,
      maxNameLength, hu.names]
  obtain ⟨made, hdatasets, hmade⟩ := cloneDatasets_made hr
  rw [(hu.trans hv).datasets] at hdatasets
  rw [← hsources, ← forall₂_iff hall hmade]
  constructor
  · rintro ⟨made', hdatasets', hcopies⟩
    rw [hdatasets, List.append_cancel_left_eq] at hdatasets'
    rwa [hdatasets']
  · exact fun hcopies => ⟨made, hdatasets, hcopies⟩

end Made

/-! ## Numbers -/

section Numbers
variable {host : Host} {s t : Sys} {numeric : ZfsProp → Prop}

theorem mem_of_ownValue {n v : CStr} {p : ZfsProp} (h : OwnValue host s n p v) :
    ∃ d ∈ s.datasets, ∃ e ∈ d.props, e.prop = p ∧ e.value = v := by
  obtain ⟨-, d, e, hfind, hentry, hvalue, -⟩ := ownValue_iff.mp h
  refine ⟨d, List.mem_of_find?_eq_some hfind, e, List.mem_of_find?_eq_some hentry, ?_, hvalue⟩
  simpa using List.find?_some hentry

/-- A number survives exactly when three digits denote it, any other value always. -/
theorem survives_iff (hround : Rounds host s numeric) {n v : CStr} {p : ZfsProp}
    (hv : OwnValue host s n p v) :
    Survives host p v ↔ (numeric p → ∀ k, v = decimal k → IsThreeDigit k) := by
  obtain ⟨d, hd, e, he, rfl, rfl⟩ := mem_of_ownValue hv
  unfold Survives
  rw [take_of_fits (hround.short d hd e he)]
  by_cases hnumeric : numeric e.prop
  · obtain ⟨k, -, hvalue, hstore⟩ := hround.number d hd e he hnumeric
    rw [hstore, hvalue]
    constructor
    · intro heq _ k' hk'
      rw [← decimal_inj hk']
      exact rounded_eq_iff.mp (decimal_inj heq)
    · intro hdigits
      rw [rounded_eq_iff.mpr (hdigits hnumeric k rfl)]
  · rw [hround.text d hd e he hnumeric]
    exact ⟨fun _ h => absurd h hnumeric, fun _ => rfl⟩

/-- The clones have the properties of their sources exactly when all numbers among the own values
have three digits in their unit. -/
theorem clonesProps_iff {root suffix be : CStr} {recursive : Bool} (hs : IsForest s.names)
    (hread : ReadsOwn host) (hround : Rounds host s numeric)
    (hr : libzeClone host root suffix be recursive s = (.success, t)) :
    ClonesProps host s t (sources s recursive root) ↔
      ∀ n ∈ sources s recursive root, ∀ p, Copied host p → numeric p → ∀ k,
        OwnValue host s n p (decimal k) → IsThreeDigit k := by
  rw [clonesProps_of_run hs hread hr]
  constructor
  · intro h n hn p hp hnumeric k hv
    exact (survives_iff hround hv).mp (h n hn p hp _ hv) hnumeric k rfl
  · intro h n hn p hp v hv
    apply (survives_iff hround hv).mpr
    rintro hnumeric k rfl
    exact h n hn p hp hnumeric k hv

end Numbers

/-! ## A quota -/

def quota : ZfsProp := .other "quota"

/-- As `allowing`, with a quota whose two values are written and read as libzfs does. -/
def quotaHost : Host :=
  { allowing with
    nativeProps := [.mountpoint, .canmount, quota]
    propText := fun p v =>
      if p = quota ∧ v = decimal 1536 then "1.50K"
      else if p = quota ∧ v = decimal 1073741825 then "1.00G" else v
    propStore := fun p text =>
      if p = quota ∧ text = "1.50K" then decimal 1536
      else if p = quota ∧ text = "1.00G" then decimal 1073741824 else text }

/-- An environment with a quota and a snapshot. -/
def quotaSys (k : Nat) : Sys :=
  sampleSys [{ name := "rpool/ROOT/d", props := [⟨quota, decimal k, .localSet⟩] },
    { name := "rpool/ROOT/d@s" }]

theorem quotaSys_entry {k : Nat} {d : Dataset} {e : PropEntry} (hd : d ∈ (quotaSys k).datasets)
    (he : e ∈ d.props) : e = ⟨quota, decimal k, .localSet⟩ := by
  have hall : ∀ d ∈ (quotaSys k).datasets, d.props = [] ∨
      d.props = [⟨quota, decimal k, .localSet⟩] := by
    simp [quotaSys, sampleSys]
  obtain hnil | hone := hall d hd
  · rw [hnil] at he
    cases he
  · rw [hone] at he
    exact List.mem_singleton.mp he

theorem quota_rounds {k : Nat} (hk : k < 2 ^ 64)
    (hstore : quotaHost.propStore quota (quotaHost.propText quota (decimal k)) = decimal (rounded k))
    (hshort : (quotaHost.propText quota (decimal k)).length < zfsMaxproplen) :
    Rounds quotaHost (quotaSys k) (· = quota) := by
  constructor
  · intro d hd e he _
    obtain rfl := quotaSys_entry hd he
    exact ⟨k, hk, rfl, hstore⟩
  · intro d hd e he hother
    obtain rfl := quotaSys_entry hd he
    exact absurd rfl hother
  · intro d hd e he
    obtain rfl := quotaSys_entry hd he
    exact hshort

theorem quota_isForest (k : Nat) : IsForest (quotaSys k).names := by
  have hnames : (quotaSys k).names = (quotaSys 0).names := rfl
  rw [hnames]
  decide +kernel

/-- A quota of 1536 bytes is cloned. -/
theorem clonesProps_quota : ClonesProps quotaHost (quotaSys 1536)
      (libzeClone quotaHost "rpool/ROOT/d" "s" "rpool/ROOT/c" true (quotaSys 1536)).2
      (sources (quotaSys 1536) true "rpool/ROOT/d") ↔
    ∀ n ∈ sources (quotaSys 1536) true "rpool/ROOT/d", ∀ p, Copied quotaHost p → p = quota → ∀ k,
      OwnValue quotaHost (quotaSys 1536) n p (decimal k) → IsThreeDigit k :=
  clonesProps_iff (quota_isForest _) (fun _ _ _ _ _ => rfl)
    (quota_rounds (by decide) (by decide +kernel) (by decide +kernel))
    (run_eq_of_fst (by decide +kernel))

/-- A quota of one byte more than a gibibyte becomes a gibibyte. -/
theorem not_clonesProps : ∃ t,
    libzeClone quotaHost "rpool/ROOT/d" "s" "rpool/ROOT/c" true (quotaSys 1073741825) =
      (.success, t) ∧ Rounds quotaHost (quotaSys 1073741825) (· = quota) ∧
    ¬ ClonesProps quotaHost (quotaSys 1073741825) t
      (sources (quotaSys 1073741825) true "rpool/ROOT/d") := by
  have hrun : (libzeClone quotaHost "rpool/ROOT/d" "s" "rpool/ROOT/c" true
      (quotaSys 1073741825)).1 = .success := by decide +kernel
  refine ⟨_, run_eq_of_fst hrun,
    quota_rounds (by decide) (by decide +kernel) (by decide +kernel), ?_⟩
  rw [clonesProps_of_run (quota_isForest _) (fun _ _ _ _ _ => rfl) (run_eq_of_fst hrun)]
  intro h
  have hsource : ("rpool/ROOT/d" : CStr) ∈ sources (quotaSys 1073741825) true "rpool/ROOT/d" := by
    decide +kernel
  have hcopied : Copied quotaHost quota :=
    ⟨by decide +kernel, rfl, by decide⟩
  have hown : OwnValue quotaHost (quotaSys 1073741825) "rpool/ROOT/d" quota
      (decimal 1073741825) := ⟨.localSet, by decide +kernel, .inl rfl⟩
  exact absurd (h _ hsource quota hcopied _ hown) (by unfold Survives; decide +kernel)

end Zectl.Libze.CloneProps
