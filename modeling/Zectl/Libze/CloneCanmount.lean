import Zectl.Libze.ActivateTree
import Zectl.Libze.Create

/-!
# The clones and their canmount property

What was cloned follows from the log of the calls. A call that gives canmount no value but
`noauto` keeps every clone from being mounted automatically, whatever it does to the datasets.
-/

namespace Zectl.Libze.CloneCanmount

open Zectl.Lib.PathOrder Zectl.Util.CString Zectl.Zfs.System Zectl.Zfs.Steps Zectl.Zfs.Forest
open Zectl.Libze.Clone Zectl.Libze.Mount Zectl.Libze.Create

/-- The filesystems made by cloning, after one more successful call. -/
def clonedNamesAfter (clones : List CStr) : Call → List CStr
  | .zfs (.clone _ target _) => target :: clones
  | .zfs (.destroy name) => clones.filter fun n => n ≠ name
  | .zfs (.rename name target) => clones.map (renamePath name target)
  | _ => clones

/-- The filesystems that the logged calls have made by cloning, under their present names. -/
def clonedNames : List (Call × Nat) → List CStr
  | [] => []
  | (c, code) :: older => if code = 0 then clonedNamesAfter (clonedNames older) c else clonedNames older

def Noauto (d : Dataset) : Prop :=
  (d.entry .canmount).map PropEntry.value = some ("noauto" : CStr)

/-- Every clone is there, and is not mounted automatically. -/
structure ClonesNoauto (clones : List CStr) (datasets : List Dataset) : Prop where
  filesystem : ∀ n ∈ clones, isSnapshotName n = false
  present : ∀ n ∈ clones, n ∈ datasets.map Dataset.name
  noauto : ∀ d ∈ datasets, d.name ∈ clones → Noauto d

/-- Canmount is visited and can be set, names that are taken are refused, and a promotion
leaves the property of every filesystem as it was. -/
structure CanmountRules (host : Host) : Prop where
  visited : ZfsProp.canmount ∈ host.nativeProps
  writable : host.zfsPropReadonly .canmount = false
  store : host.propStore .canmount "noauto" = "noauto"
  clone : ∀ s snap target props, host.answer s (.zfs (.clone snap target props)) = 0 →
    isSnapshotName target = false ∧ target ∉ s.names
  rename : ∀ s name target, host.answer s (.zfs (.rename name target)) = 0 →
    isSnapshotName target = isSnapshotName name ∧ ∀ n ∈ s.names, ¬ AtOrBelow target n
  promote : ∀ name datasets, ∀ d ∈ host.promoted name datasets, isSnapshotName d.name = false →
    ∃ e ∈ datasets, e.name = d.name ∧ e.entry .canmount = d.entry .canmount

/-- A list that can set canmount to `noauto` only. -/
def NoautoOnly (props : DsProps) : Prop := ∀ p ∈ props, p.1 = .canmount → p.2 = ("noauto" : CStr)

/-- A list that sets canmount to `noauto`. -/
def SetsCanmount (props : DsProps) : Prop :=
  NoautoOnly props ∧ (ZfsProp.canmount, ("noauto" : CStr)) ∈ props

/-- The calls that give canmount no other value than `noauto`. -/
def KeepsNoauto : Call → Prop
  | .zfs (.clone _ _ props) => SetsCanmount props
  | .zfs (.propSet _ prop value) => prop = .canmount → value = ("noauto" : CStr)
  | .zfs (.propSetList _ props) => NoautoOnly props
  | _ => True

/-! ## What a successful call does to the clones -/

section Effect
variable {host : Host} {made : List CStr} {s : Sys}

theorem entry_setProp_ne {d : Dataset} {prop q : ZfsProp} {value : CStr} (hne : q ≠ prop) :
    (d.setProp prop value).entry q = d.entry q := by
  have hhead : decide (prop = q) = false := decide_eq_false (Ne.symm hne)
  rw [Dataset.entry, Dataset.setProp, List.find?_cons, hhead, List.find?_filter]
  apply congrArg (fun p => d.props.find? p)
  funext e
  by_cases heq : e.prop = q
  · simp [heq, hne]
  · simp [heq]

theorem noauto_setProp {d : Dataset} (hd : Noauto d) {prop : ZfsProp} {value : CStr}
    (hvalue : prop = .canmount → value = ("noauto" : CStr)) : Noauto (d.setProp prop value) := by
  unfold Noauto
  by_cases hprop : prop = .canmount
  · subst hprop
    rw [ActivateTree.entry_setProp, hvalue rfl]
    rfl
  · rw [entry_setProp_ne (Ne.symm hprop)]
    exact hd

theorem stored_noauto (hrules : CanmountRules host) {p : ZfsProp × CStr}
    (hp : p.1 = .canmount → p.2 = ("noauto" : CStr)) :
    (host.store p).1 = .canmount → (host.store p).2 = ("noauto" : CStr) := by
  intro hcanmount
  show host.propStore p.1 p.2 = _
  have hprop : p.1 = .canmount := hcanmount
  rw [hprop, hp hprop]
  exact hrules.store

theorem noauto_setList (hrules : CanmountRules host) {props : DsProps} (hprops : NoautoOnly props)
    {d : Dataset} (hd : Noauto d) :
    Noauto ((props.map host.store).foldl (fun d p => d.setProp p.1 p.2) d) := by
  induction props generalizing d with
  | nil => exact hd
  | cons p rest ih =>
    have hp := stored_noauto hrules (hprops p List.mem_cons_self)
    exact ih (fun q hq => hprops q (List.mem_cons_of_mem p hq)) (noauto_setProp hd hp)

/-- The dataset a clone adds. -/
theorem noauto_cloned (hrules : CanmountRules host) {props : DsProps} (hprops : SetsCanmount props)
    (target snap : CStr) : Noauto {
      name := target
      origin := some snap
      props := (props.map host.store).map fun p => ⟨p.1, p.2, .localSet⟩ } := by
  obtain ⟨honly, hmem⟩ := hprops
  let entries : List PropEntry := (props.map host.store).map fun p => ⟨p.1, p.2, .localSet⟩
  have hall : ∀ e ∈ entries, e.prop = .canmount → e.value = ("noauto" : CStr) := by
    intro e he
    obtain ⟨q, hq, rfl⟩ := List.mem_map.mp he
    obtain ⟨p, hp, rfl⟩ := List.mem_map.mp hq
    exact stored_noauto hrules (honly p hp)
  have hsome : ∃ e ∈ entries, e.prop = .canmount :=
    ⟨_, List.mem_map_of_mem (List.mem_map_of_mem hmem), rfl⟩
  show (entries.find? fun e => e.prop = .canmount).map PropEntry.value = _
  cases hfind : entries.find? fun e => e.prop = .canmount with
  | none =>
    obtain ⟨e, he, hprop⟩ := hsome
    exact absurd (decide_eq_true hprop) (List.find?_eq_none.mp hfind e he)
  | some e =>
    have hprop : e.prop = .canmount := by simpa using List.find?_some hfind
    rw [Option.map_some, hall e (List.mem_of_find?_eq_some hfind) hprop]

/-- Where nothing lies at or below the new name, two names stay two. -/
theorem renamePath_inj {name target m n : CStr} (hm : ¬ AtOrBelow target m)
    (hn : ¬ AtOrBelow target n) (heq : renamePath name target m = renamePath name target n) :
    m = n := by
  have hmoved : ∀ k, AtOrBelow name k → AtOrBelow target (renamePath name target k) := by
    intro k hk
    rw [renamePath, if_pos hk]
    obtain rfl | ⟨c, r, hc, rfl⟩ := hk
    · rw [List.drop_length, List.append_nil]
      exact under_refl
    · rw [List.drop_left]
      exact under_append hc r
  have hkept : ∀ k, ¬ AtOrBelow name k → renamePath name target k = k := fun k hk => if_neg hk
  by_cases hbm : AtOrBelow name m
  · by_cases hbn : AtOrBelow name n
    · rw [renamePath, renamePath, if_pos hbm, if_pos hbn] at heq
      have hrest := List.append_cancel_left heq
      obtain ⟨a, rfl⟩ := hbm.isPrefix
      obtain ⟨b, rfl⟩ := hbn.isPrefix
      rw [List.drop_left, List.drop_left] at hrest
      rw [hrest]
    · rw [hkept n hbn] at heq
      exact absurd (heq ▸ hmoved m hbm) hn
  · by_cases hbn : AtOrBelow name n
    · rw [hkept m hbm] at heq
      exact absurd (heq ▸ hmoved n hbn) hm
    · rwa [hkept m hbm, hkept n hbn] at heq

theorem isSnapshotName_renamePath {name target n : CStr}
    (htarget : isSnapshotName target = isSnapshotName name) (hn : isSnapshotName n = false) :
    isSnapshotName (renamePath name target n) = false := by
  unfold renamePath
  by_cases hbelow : AtOrBelow name n
  · rw [if_pos hbelow]
    obtain ⟨rest, rfl⟩ := hbelow.isPrefix
    simp only [isSnapshotName, decide_eq_false_iff_not, decide_eq_decide, List.mem_append,
      not_or] at hn htarget ⊢
    rw [List.drop_left]
    exact ⟨fun hat => hn.1 (htarget.mp hat), hn.2⟩
  · rw [if_neg hbelow]
    exact hn

theorem mapDataset_keeps (hs : ClonesNoauto made s.datasets) (name : CStr)
    {f : Dataset → Dataset} (hname : ∀ d, (f d).name = d.name) (hf : ∀ d, Noauto d → Noauto (f d)) :
    ClonesNoauto made (s.mapDataset name f).datasets := by
  have hnames : (s.mapDataset name f).datasets.map Dataset.name = s.datasets.map Dataset.name := by
    rw [Sys.mapDataset, List.map_map]
    apply List.map_congr_left
    intro d _
    rw [Function.comp_apply]
    split
    · exact hname d
    · rfl
  constructor
  · exact hs.filesystem
  · intro n hn
    rw [hnames]
    exact hs.present n hn
  · intro e he hmade
    obtain ⟨d, hd, rfl⟩ := List.mem_map.mp he
    by_cases hdn : d.name = name
    · rw [if_pos hdn] at hmade ⊢
      rw [hname] at hmade
      exact hf d (hs.noauto d hd hmade)
    · rw [if_neg hdn] at hmade ⊢
      exact hs.noauto d hd hmade

theorem clone_keeps (hrules : CanmountRules host) (hs : ClonesNoauto made s.datasets)
    {snap target : CStr} {props : DsProps} (hprops : SetsCanmount props)
    (hgrant : host.answer s (.zfs (.clone snap target props)) = 0) :
    ClonesNoauto (target :: made) ((ZfsCall.clone snap target props).effect host s).datasets := by
  obtain ⟨hfs, hfresh⟩ := hrules.clone s snap target props hgrant
  constructor
  · intro n hn
    obtain rfl | hn := List.mem_cons.mp hn
    · exact hfs
    · exact hs.filesystem n hn
  · intro n hn
    rw [ZfsCall.effect, List.map_append]
    obtain rfl | hn := List.mem_cons.mp hn
    · exact List.mem_append_right _ List.mem_cons_self
    · exact List.mem_append_left _ (hs.present n hn)
  · intro d hd hmade
    obtain hd | hd := List.mem_append.mp hd
    · -- no dataset had the name of the new one
      have hne : d.name ≠ target := fun heq => hfresh (heq ▸ List.mem_map_of_mem hd)
      exact hs.noauto d hd ((List.mem_cons.mp hmade).resolve_left hne)
    · rw [List.mem_singleton.mp hd]
      exact noauto_cloned hrules hprops target snap

theorem rename_keeps (hrules : CanmountRules host) (hs : ClonesNoauto made s.datasets)
    {name target : CStr} (hgrant : host.answer s (.zfs (.rename name target)) = 0) :
    ClonesNoauto (made.map (renamePath name target))
      ((ZfsCall.rename name target).effect host s).datasets := by
  obtain ⟨hkind, hfree⟩ := hrules.rename s name target hgrant
  constructor
  · intro n hn
    obtain ⟨m, hm, rfl⟩ := List.mem_map.mp hn
    exact isSnapshotName_renamePath hkind (hs.filesystem m hm)
  · intro n hn
    obtain ⟨m, hm, rfl⟩ := List.mem_map.mp hn
    obtain ⟨d, hd, rfl⟩ := List.mem_map.mp (hs.present m hm)
    rw [ZfsCall.effect, List.map_map]
    exact List.mem_map.mpr ⟨d, hd, rfl⟩
  · intro e he hmade
    obtain ⟨d, hd, rfl⟩ := List.mem_map.mp he
    obtain ⟨m, hm, heq⟩ := List.mem_map.mp hmade
    have hsame := renamePath_inj (hfree m (hs.present m hm))
      (hfree d.name (List.mem_map_of_mem hd)) heq
    exact hs.noauto d hd (hsame ▸ hm)

theorem destroy_keeps (hs : ClonesNoauto made s.datasets) (name : CStr) :
    ClonesNoauto (made.filter fun n => n ≠ name)
      ((ZfsCall.destroy name).effect host s).datasets := by
  constructor
  · exact fun n hn => hs.filesystem n (List.mem_filter.mp hn).1
  · intro n hn
    obtain ⟨hn, hne⟩ := List.mem_filter.mp hn
    obtain ⟨d, hd, rfl⟩ := List.mem_map.mp (hs.present n hn)
    exact List.mem_map_of_mem (List.mem_filter.mpr ⟨hd, hne⟩)
  · intro d hd hmade
    exact hs.noauto d (List.mem_filter.mp hd).1 (List.mem_filter.mp hmade).1

theorem snapshot_keeps (hs : ClonesNoauto made s.datasets) (name : CStr) (recursive : Bool) :
    ClonesNoauto made ((ZfsCall.snapshot name recursive).effect host s).datasets := by
  constructor
  · exact hs.filesystem
  · intro n hn
    rw [ZfsCall.effect, List.map_append]
    exact List.mem_append_left _ (hs.present n hn)
  · intro d hd hmade
    obtain hd | hd := List.mem_append.mp hd
    · exact hs.noauto d hd hmade
    · have hsnap := isSnapshotName_of_newSnapshots hd
      rw [hs.filesystem _ hmade] at hsnap
      cases hsnap

theorem promote_keeps (hrules : CanmountRules host) (hs : ClonesNoauto made s.datasets)
    (name : CStr) : ClonesNoauto made ((ZfsCall.promote name).effect host s).datasets := by
  constructor
  · exact hs.filesystem
  · intro n hn
    have hfs := hs.filesystem n hn
    have hmem : n ∈ (s.datasets.map Dataset.name).filter (¬ isSnapshotName ·) := by
      simp [hs.present n hn, hfs]
    rw [← host.promoted_filesystems name s.datasets] at hmem
    exact (List.mem_filter.mp hmem).1
  · intro d hd hmade
    obtain ⟨e, he, hname, hentry⟩ := hrules.promote name s.datasets d hd (hs.filesystem _ hmade)
    show (d.entry .canmount).map PropEntry.value = _
    rw [← hentry]
    exact hs.noauto e he (hname ▸ hmade)

theorem effect_keeps (hrules : CanmountRules host) {c : Call} (hc : KeepsNoauto c)
    (hgrant : host.answer s c = 0) (hs : ClonesNoauto made s.datasets) :
    ClonesNoauto (clonedNamesAfter made c) (c.effect host s).datasets := by
  cases c with
  | hook => exact hs
  | file c =>
    show ClonesNoauto made (c.effect s).datasets
    rw [fileEffect_datasets]
    exact hs
  | zfs c =>
    cases c with
    | poolOpen | «open» | propGet | setBootfs => exact hs
    | snapshot name recursive => exact @snapshot_keeps host made s hs name recursive
    | clone snap target props => exact clone_keeps hrules hs hc hgrant
    | destroy name => exact @destroy_keeps host made s hs name
    | rename name target => exact rename_keeps hrules hs hgrant
    | promote name => exact promote_keeps hrules hs name
    | unmount name | mount name | temporaryMount name _ =>
      exact mapDataset_keeps hs name (fun _ => rfl) fun _ hd => hd
    | propSet name prop value =>
      have hvalue := stored_noauto hrules (p := (prop, value)) hc
      exact mapDataset_keeps hs name (fun _ => rfl) fun _ hd => noauto_setProp hd hvalue
    | propSetList name props =>
      apply mapDataset_keeps hs name
      · exact fun d => (foldl_setProp_shape (props.map host.store) d).1
      · exact fun _ hd => noauto_setList hrules hc hd

/-- One call, and what the log then says was cloned. -/
theorem step_keeps (hrules : CanmountRules host) {t : Sys} (hstep : Step host KeepsNoauto s t)
    (hs : ClonesNoauto (clonedNames s.trace) s.datasets) :
    ClonesNoauto (clonedNames t.trace) t.datasets := by
  cases hstep with
  | error => exact hs
  | @call c hc =>
    rcases hcall : call host c s with ⟨code, t⟩
    by_cases hcode : code = 0
    · subst hcode
      obtain ⟨hgrant, rfl⟩ := call_done hcall
      exact effect_keeps hrules hc hgrant hs
    · rw [call_refused hcall hcode]
      show ClonesNoauto (if code = 0 then _ else clonedNames s.trace) s.datasets
      rw [if_neg hcode]
      exact hs

end Effect

end Zectl.Libze.CloneCanmount
