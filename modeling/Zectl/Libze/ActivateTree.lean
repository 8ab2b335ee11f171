import Zectl.Libze.Activate

/-!
# What the activation of a tree reaches

`libze_activate_cb` goes on to the children of a clone. Where a dataset is no clone it returns,
and nothing below it is visited.
-/

namespace Zectl.Libze.ActivateTree

open Zectl.Lib.StateRun Zectl.Lib.Visit Zectl.Lib.PathOrder Zectl.Lib.Preorder
open Zectl.Util.CString Zectl.Zfs.System Zectl.Zfs.Steps Zectl.Zfs.Forest Zectl.Libze.Sample
open Zectl.Libze.Activate

/-- The dataset has `canmount=noauto` and is no clone. -/
def Settled (s : Sys) (n : CStr) : Prop :=
  ∃ d, s.find n = some d ∧ d.origin = none ∧
    (d.entry .canmount).map PropEntry.value = some ("noauto" : CStr)

/-- The filesystems of a tree. -/
def InTree (s : Sys) (top n : CStr) : Prop :=
  n ∈ s.names ∧ isSnapshotName n = false ∧ AtOrBelow top n

/-- A promotion makes its dataset no clone and changes no other one of the tree, the origin of a
clone can be read, and a text that is set is stored. -/
structure ActivateRules (host : Host) (s : Sys) (top : CStr) : Prop where
  promote : ∀ u n m, InTree s top n → InTree s top m →
    (Call.effect host u (.zfs (.promote n))).find m =
      (u.find m).map fun d => if m = n then { d with origin := none } else d
  origin : ∀ u n, u.originOf n ≠ none → host.answer u (.zfs (.propGet n .origin)) = 0
  store : host.propStore .canmount "noauto" = "noauto"

/-- A proper ancestor in the tree is no clone. -/
def BehindNonClone (s : Sys) (top n : CStr) : Prop :=
  ∃ a, AtOrBelow top a ∧ AtOrBelow a n ∧ a ≠ n ∧ s.originOf a = none

/-- The children the activation goes on to. -/
def cloneKids (s : Sys) (top n : CStr) : List CStr :=
  if AtOrBelow top n ∧ s.originOf n = none then [] else childFilesystems s n

/-! ## The datasets it goes to -/

section Reach
variable {s : Sys} {top n m c : CStr}

theorem mem_cloneKids : c ∈ cloneKids s top n ↔
    c ∈ childFilesystems s n ∧ (AtOrBelow top n → s.originOf n ≠ none) := by
  unfold cloneKids
  by_cases hstop : AtOrBelow top n ∧ s.originOf n = none
  · rw [if_pos hstop]
    apply iff_of_false List.not_mem_nil
    exact fun hgo => hgo.2 hstop.1 hstop.2
  · rw [if_neg hstop]
    exact (and_iff_left fun htop hnone => hstop ⟨htop, hnone⟩).symm

theorem cloneKids_ranked (hforest : IsForest s.names) :
    Ranked parentOf (cloneKids s top) List.length where
  parent_of_mem hc := hforest.ranked.parent_of_mem (mem_cloneKids.mp hc).1
  nodup n := by
    unfold cloneKids
    split
    · exact List.nodup_nil
    · exact hforest.ranked.nodup n
  rank_lt := parentOf_length_lt

theorem clone_of_reached (hforest : IsForest s.names) {depth : Nat} (hn : AtOrBelow top n)
    (hm : m ∈ preorder (cloneKids s top) depth n) {a : CStr} (hna : AtOrBelow n a)
    (ham : AtOrBelow a m) (hne : a ≠ m) (hmem : m ∈ s.names) : s.originOf a ≠ none := by
  induction depth generalizing n with
  | zero => cases hm
  | succ depth ih =>
    obtain rfl | hm := List.mem_cons.mp hm
    · exact absurd (hna.antisymm ham).symm hne
    · obtain ⟨c, hc, hm⟩ := List.mem_flatMap.mp hm
      obtain ⟨hchild, hclone⟩ := mem_cloneKids.mp hc
      obtain ⟨hcmem, hparent, -⟩ := mem_childFilesystems.mp hchild
      have hcm := (cloneKids_ranked hforest).descends_of_mem hm
      have ha := hforest.mem_of_atOrBelow hmem ham
      obtain hac | hca := (hforest.descends hmem ham).comparable hcm
      · -- between the dataset and its child there is nothing
        obtain rfl | ⟨p, hap, hpc⟩ := Relation.ReflTransGen.cases_tail hac
        · exact ih (hn.trans (atOrBelow_of_parentOf hparent)) hm under_refl
        · cases hparent.symm.trans hpc
          have han := hna.antisymm (atOrBelow_of_descends hap)
          rw [← han]
          exact hclone hn
      · exact ih (hn.trans (atOrBelow_of_parentOf hparent)) hm (atOrBelow_of_descends hca)

theorem mem_reached_iff (hforest : IsForest s.names) (hm : InTree s top m) :
    m ∈ preorder (cloneKids s top) (recursionDepth s) top ↔ ¬ BehindNonClone s top m := by
  obtain ⟨hmem, hfs, hbelow⟩ := hm
  constructor
  · rintro hreached ⟨a, htop, ham, hne, hnone⟩
    exact clone_of_reached hforest under_refl hreached htop ham hne hmem hnone
  · intro hfree
    refine (cloneKids_ranked hforest).mem_preorder
      (fun x => x ∈ s.names ∧ isSnapshotName x = false ∧ ¬ BehindNonClone s top x) ?_ ?_
      ⟨hmem, hfs, hfree⟩ (hforest.descends hmem hbelow) ?_
    · rintro x p ⟨hx, -, hxfree⟩ hp
      refine ⟨hforest.parent x hx p hp, not_isSnapshotName_of_parentOf hp (hforest.valid x hx), ?_⟩
      rintro ⟨a, htop, hap, -, hnone⟩
      have hpx := atOrBelow_of_parentOf hp
      have hlt := parentOf_length_lt hp
      have hle := hap.length_le
      refine hxfree ⟨a, htop, hap.trans hpx, ?_, hnone⟩
      rintro rfl
      omega
    · rintro x c ⟨hc, hcfs, hcfree⟩ hp
      refine mem_cloneKids.mpr ⟨mem_childFilesystems.mpr ⟨hc, hp, hcfs⟩, ?_⟩
      intro htop hnone
      have hlt := parentOf_length_lt hp
      refine hcfree ⟨x, htop, atOrBelow_of_parentOf hp, ?_, hnone⟩
      rintro rfl
      omega
    · have hlen := length_le_maxNameLength hmem
      rw [recursionDepth]
      omega

end Reach

/-! ## What a successful run leaves -/

/-- What is reached is settled, and the other datasets of the tree are as they were. -/
structure Settles (s : Sys) (top : CStr) (reached : List CStr) (u t : Sys) : Prop where
  filesystems : filesystems t = filesystems u
  settled : ∀ m, InTree s top m → m ∈ reached → Settled t m
  kept : ∀ m, InTree s top m → m ∉ reached → t.find m = u.find m

section Run
variable {host : Host} {s t u v : Sys} {top n m : CStr}

theorem filesystems_promoted (n : CStr) :
    filesystems (Call.effect host u (.zfs (.promote n))) = filesystems u :=
  host.promoted_filesystems n u.datasets

theorem entry_setProp (d : Dataset) (prop : ZfsProp) (value : CStr) :
    (d.setProp prop value).entry prop = some ⟨prop, value, .localSet⟩ := by
  simp [Dataset.setProp, Dataset.entry]

/-- The origin is read exactly from clones. -/
theorem zfsPropGet_origin_iff (hrules : ActivateRules host s top) {r : Nat} {buf : CStr}
    (hget : zfsPropGet host n .origin u = ((r, buf), t)) : r = 0 ↔ u.originOf n ≠ none := by
  unfold zfsPropGet at hget
  obtain ⟨code, v, hcall, hget⟩ := bind_run hget
  have hsame := samePools_of_call ⟨rfl, rfl, rfl⟩ hcall
  have horigin : v.originOf n = u.originOf n := by rw [Sys.originOf, hsame.find, Sys.originOf]
  have hvalue : v.propValue host n .origin =
      (u.originOf n).map fun o => (o, ZpropSource.none) := by
    rw [← horigin, Sys.propValue, Sys.originOf]
    cases v.find n with
    | none => rfl
    | some d => rfl
  split at hget
  · rename_i hcode
    cases hget
    apply iff_of_false hcode
    intro hclone
    obtain ⟨hanswer, -⟩ := Prod.mk.inj hcall
    exact hcode (hanswer.symm.trans (hrules.origin u n hclone))
  · rw [run_get_bind, hvalue] at hget
    cases hclone : u.originOf n with
    | none =>
      rw [hclone] at hget
      cases hget
      simp
    | some o =>
      rw [hclone] at hget
      cases hget
      simp

/-- One round of the callback. -/
theorem activateCb_zero (hrules : ActivateRules host s top) (hn : InTree s top n) {depth : Nat}
    (hr : libzeActivateCb host (depth + 1) n u = (0, t)) :
    ∃ v, filesystems v = filesystems u ∧
      (∀ m, InTree s top m → m ≠ n → v.find m = u.find m) ∧
      (∀ d, u.find n = some d → Settled v n) ∧
      (u.originOf n = none ∧ t = v ∨ u.originOf n ≠ none ∧
        visitAll (libzeActivateCb host depth) (childFilesystems v n) v = (0, t)) := by
  rw [libzeActivateCb] at hr
  obtain ⟨code, u1, hset, hr⟩ := bind_run hr
  split at hr
  · cases hr
  rename_i hcode
  rw [not_not.mp hcode] at hset
  have hname : ∀ d : Dataset,
      (d.setProp .canmount (host.propStore .canmount "noauto")).name = d.name := fun _ => rfl
  have hfind1 : ∀ m, u1.find m = (u.find m).map fun d =>
      if d.name = n then d.setProp .canmount (host.propStore .canmount "noauto") else d := by
    intro m
    rw [find_call_done hset]
    exact find_mapDataset hname m
  have hnames1 : u1.names = u.names := by
    have hshape : SameShape u u1 := by
      rw [(call_done hset).2]
      exact mapDataset_shape (s := u) fun _ => rfl
    exact hshape.names
  obtain ⟨⟨r, buf⟩, u2, hget, hr⟩ := bind_run hr
  have hsame := zfsPropGet_samePools hget
  have hother : ∀ m, m ≠ n → u2.find m = u.find m := by
    intro m hm
    rw [hsame.find, hfind1]
    cases hfind : u.find m with
    | none => rfl
    | some d =>
      have hdname : d.name = m := by simpa using List.find?_some hfind
      rw [Option.map_some, if_neg (hdname ▸ hm)]
  have hself : ∀ d, u.find n = some d → ∃ e, u2.find n = some e ∧ e.origin = d.origin ∧
      (e.entry .canmount).map PropEntry.value = some ("noauto" : CStr) := by
    intro d hfind
    have hdname : d.name = n := by simpa using List.find?_some hfind
    refine ⟨d.setProp .canmount (host.propStore .canmount "noauto"), ?_, rfl, ?_⟩
    · rw [hsame.find, hfind1, hfind, Option.map_some, if_pos hdname]
    · rw [entry_setProp, hrules.store]
      rfl
  have horigin : u2.originOf n = u.originOf n := by
    rw [Sys.originOf, hsame.find, hfind1, Sys.originOf]
    cases u.find n with
    | none => rfl
    | some d =>
      rw [Option.map_some, Option.bind_some, Option.bind_some]
      split
      · rfl
      · rfl
  have hread : r = 0 ↔ u.originOf n ≠ none := by
    rw [zfsPropGet_origin_iff hrules hget, ← horigin, Sys.originOf, Sys.originOf, hsame.find]
  dsimp only at hr
  split at hr
  · rename_i hnone
    cases hr
    have hfree : u.originOf n = none := not_not.mp fun h => hnone (hread.mpr h)
    refine ⟨_, filesystems_of_names (hsame.names.trans hnames1), fun m _ hm => hother m hm, ?_,
      .inl ⟨hfree, rfl⟩⟩
    intro d hfind
    obtain ⟨e, he, heorigin, hvalue⟩ := hself d hfind
    have hd : d.origin = none := by simpa [Sys.originOf, hfind] using hfree
    exact ⟨e, he, heorigin.trans hd, hvalue⟩
  · rename_i hzero
    obtain ⟨code', u3, hpromote, hr⟩ := bind_run hr
    split at hr
    · cases hr
    rename_i hcode'
    rw [not_not.mp hcode'] at hpromote
    rw [run_get_bind] at hr
    obtain ⟨r', u4, hvisit, hr⟩ := bind_run hr
    split at hr
    · cases hr
    rename_i hr'
    rw [not_not.mp hr'] at hvisit
    cases hr
    have hfind3 : ∀ m, InTree s top m → u3.find m =
        (u2.find m).map fun d => if m = n then { d with origin := none } else d := by
      intro m hm
      rw [find_call_done hpromote]
      exact hrules.promote u2 n m hn hm
    refine ⟨u3, ?_, ?_, ?_, .inr ⟨hread.mp (not_not.mp hzero), hvisit⟩⟩
    · have hnames : filesystems u3 = filesystems u2 := by
        rw [(call_done hpromote).2]
        exact filesystems_promoted n
      exact hnames.trans (filesystems_of_names (hsame.names.trans hnames1))
    · intro m hm hne
      rw [hfind3 m hm, hother m hne]
      cases u.find m with
      | none => rfl
      | some d => rw [Option.map_some, if_neg hne]
    · intro d hfind
      obtain ⟨e, he, -, hvalue⟩ := hself d hfind
      refine ⟨{ e with origin := none }, ?_, rfl, hvalue⟩
      rw [hfind3 n hn, he, Option.map_some, if_pos rfl]

theorem Settles.refl (s : Sys) (top : CStr) (u : Sys) : Settles s top [] u u :=
  ⟨rfl, fun _ _ hm => absurd hm List.not_mem_nil, fun _ _ _ => rfl⟩

theorem Settled.of_find (h : Settled u m) (hfind : t.find m = u.find m) : Settled t m := by
  obtain ⟨d, hd, hrest⟩ := h
  exact ⟨d, hfind.trans hd, hrest⟩

/-- Two runs one after the other that reach different datasets. -/
theorem Settles.trans {l l' : List CStr} (huv : Settles s top l u v) (hvt : Settles s top l' v t)
    (hdisjoint : ∀ m ∈ l, m ∉ l') : Settles s top (l ++ l') u t where
  filesystems := hvt.filesystems.trans huv.filesystems
  settled m hm hreached := by
    by_cases hl : m ∈ l
    · exact (huv.settled m hm hl).of_find (hvt.kept m hm (hdisjoint m hl))
    · exact hvt.settled m hm ((List.mem_append.mp hreached).resolve_left hl)
  kept m hm hout := by
    rw [List.mem_append, not_or] at hout
    rw [hvt.kept m hm hout.2, huv.kept m hm hout.1]

/-- The callback on each of a list of siblings. -/
theorem visit_settles (hforest : IsForest s.names) (reached : CStr → List CStr)
    (f : CStr → Libze Int) {l : List CStr} (hnodup : l.Nodup)
    (hl : ∀ c ∈ l, c ∈ childFilesystems s n)
    (hreached : ∀ c ∈ l, ∀ m ∈ reached c, Descends parentOf c m)
    (hf : ∀ c ∈ l, ∀ u t, filesystems u = filesystems s →
      (∀ m, InTree s top m → AtOrBelow c m → u.find m = s.find m) → f c u = (0, t) →
        Settles s top (reached c) u t)
    (hnames : filesystems u = filesystems s)
    (hsame : ∀ c ∈ l, ∀ m, InTree s top m → AtOrBelow c m → u.find m = s.find m)
    (hr : visitAll f l u = (0, t)) : Settles s top (l.flatMap reached) u t := by
  induction l generalizing u with
  | nil =>
    cases hr
    exact .refl s top _
  | cons c rest ih =>
    obtain ⟨hc, hrest⟩ := List.nodup_cons.mp hnodup
    obtain ⟨v, hv, hr⟩ := visitAll_cons_zero.mp hr
    have hone := hf c List.mem_cons_self u v hnames (hsame c List.mem_cons_self) hv
    -- the siblings have nothing below them in common
    have happart : ∀ d ∈ rest, ∀ m, InTree s top m → AtOrBelow d m → m ∉ reached c := by
      intro d hd m hm hdm hmc
      have hpc := (mem_childFilesystems.mp (hl c List.mem_cons_self)).2.1
      have hpd := (mem_childFilesystems.mp (hl d (List.mem_cons_of_mem c hd))).2.1
      have heq := hforest.ranked.eq_of_common hpc hpd
        (hreached c List.mem_cons_self m hmc) (hforest.descends hm.1 hdm)
      exact hc (heq ▸ hd)
    have hnext := ih hrest (fun d hd => hl d (List.mem_cons_of_mem c hd))
      (fun d hd => hreached d (List.mem_cons_of_mem c hd))
      (fun d hd => hf d (List.mem_cons_of_mem c hd)) (hone.filesystems.trans hnames)
      (fun d hd m hm hdm => (hone.kept m hm (happart d hd m hm hdm)).trans
        (hsame d (List.mem_cons_of_mem c hd) m hm hdm)) hr
    rw [List.flatMap_cons]
    refine ⟨hnext.filesystems.trans hone.filesystems, fun m hm hmem => ?_, fun m hm hout => ?_⟩
    · by_cases hlater : m ∈ rest.flatMap reached
      · exact hnext.settled m hm hlater
      · exact (hone.settled m hm ((List.mem_append.mp hmem).resolve_right hlater)).of_find
          (hnext.kept m hm hlater)
    · rw [List.mem_append, not_or] at hout
      rw [hnext.kept m hm hout.2, hone.kept m hm hout.1]

/-- A success settles the datasets that are reached and changes nothing else in the tree. -/
theorem activateCb_settles (hforest : IsForest s.names) (hrules : ActivateRules host s top)
    (depth : Nat) (hn : InTree s top n) (hnames : filesystems u = filesystems s)
    (hsame : ∀ m, InTree s top m → AtOrBelow n m → u.find m = s.find m)
    (hr : libzeActivateCb host depth n u = (0, t)) :
    Settles s top (preorder (cloneKids s top) depth n) u t := by
  induction depth generalizing n u t with
  | zero => cases hr
  | succ depth ih =>
    obtain ⟨v, hfs, hother, hself, hend⟩ := activateCb_zero hrules hn hr
    have horigin : u.originOf n = s.originOf n := by
      rw [Sys.originOf, hsame n hn under_refl, Sys.originOf]
    obtain ⟨d, -, hd⟩ := find_of_mem hn.1
    have hsettled : Settled v n := hself d ((hsame n hn under_refl).trans hd)
    rw [horigin] at hend
    have hone : Settles s top [n] u v := by
      refine ⟨hfs, fun m _ hm => ?_, fun m hm hout => ?_⟩
      · rw [List.mem_singleton] at hm
        exact hm ▸ hsettled
      · exact hother m hm (by simpa using hout)
    rw [preorder]
    obtain ⟨hnone, rfl⟩ | ⟨hclone, hvisit⟩ := hend
    · rw [cloneKids, if_pos ⟨hn.2.2, hnone⟩]
      exact hone
    have hkids : cloneKids s top n = childFilesystems s n := if_neg fun hstop => hclone hstop.2
    rw [childFilesystems_of_filesystems (hfs.trans hnames), ← hkids] at hvisit
    have hbelow : ∀ c ∈ cloneKids s top n, c ∈ childFilesystems s n := fun c hc => hkids ▸ hc
    have hnotself : ∀ c ∈ cloneKids s top n, ∀ m, AtOrBelow c m → m ≠ n := by
      rintro c hc m hcm rfl
      have hlt := parentOf_length_lt (mem_childFilesystems.mp (hbelow c hc)).2.1
      have hle := hcm.length_le
      omega
    refine hone.trans (visit_settles hforest (preorder (cloneKids s top) depth) _
      ((cloneKids_ranked hforest).nodup n) hbelow
      (fun c _ m hm => (cloneKids_ranked hforest).descends_of_mem hm) ?_ (hfs.trans hnames) ?_ hvisit) ?_
    · intro c hc w t' hw hsame' hrun
      obtain ⟨hmem, hparent, hcfs⟩ := mem_childFilesystems.mp (hbelow c hc)
      exact ih ⟨hmem, hcfs, hn.2.2.trans (atOrBelow_of_parentOf hparent)⟩ hw hsame' hrun
    · intro c hc m hm hcm
      have hparent := (mem_childFilesystems.mp (hbelow c hc)).2.1
      rw [hother m hm (hnotself c hc m hcm),
        hsame m hm ((atOrBelow_of_parentOf hparent).trans hcm)]
    · intro m hm hlater
      rw [List.mem_singleton] at hm
      obtain ⟨c, hc, hmc⟩ := List.mem_flatMap.mp hlater
      exact hnotself c hc m (atOrBelow_of_descends ((cloneKids_ranked hforest).descends_of_mem hmc)) hm

end Run

/-- After a success the whole tree is settled exactly when everything behind a dataset that is
no clone was settled before. -/
theorem tree_settled_iff {host : Host} {s t : Sys} {top : CStr} (hforest : IsForest s.names)
    (hrules : ActivateRules host s top) (htop : s.datasetExists top .filesystem = true)
    (hr : runActivateCb host top s = (0, t)) :
    (∀ n, InTree s top n → Settled t n) ↔
      ∀ n, InTree s top n → BehindNonClone s top n → Settled s n := by
  have hfs : top ∈ s.names ∧ isSnapshotName top = false := by
    simpa [Sys.datasetExists] using htop
  have hin : InTree s top top := ⟨hfs.1, hfs.2, under_refl⟩
  have hall := activateCb_settles hforest hrules _ hin rfl (fun _ _ _ => rfl) hr
  constructor
  · intro hsettled n hn hbehind
    have hout : n ∉ preorder (cloneKids s top) (recursionDepth s) top :=
      fun hmem => (mem_reached_iff hforest hn).mp hmem hbehind
    exact (hsettled n hn).of_find (hall.kept n hn hout).symm
  · intro hbehind n hn
    by_cases hmem : n ∈ preorder (cloneKids s top) (recursionDepth s) top
    · exact hall.settled n hn hmem
    · have hback : BehindNonClone s top n := by
        by_contra hfree
        exact hmem ((mem_reached_iff hforest hn).mpr hfree)
      exact (hbehind n hn hback).of_find (hall.kept n hn hmem)

/-! ## A child that is left a clone -/

def noClone (name : CStr) (datasets : List Dataset) : List Dataset :=
  datasets.map fun d => if d.name = name then { d with origin := none } else d

theorem noClone_names (name : CStr) (datasets : List Dataset) :
    (noClone name datasets).map Dataset.name = datasets.map Dataset.name := by
  rw [noClone, List.map_map]
  apply List.map_congr_left
  intro d _
  simp only [Function.comp_apply]
  split
  · rfl
  · rfl

/-- A promotion takes the origin away. -/
def promotingHost : Host :=
  { allowing with
    promoted := noClone
    promoted_filesystems := fun name datasets => by rw [noClone_names] }

theorem promotingHost_rules (s : Sys) (top : CStr) : ActivateRules promotingHost s top where
  promote u n m _ _ := by
    have hname : ∀ d : Dataset, ({ d with origin := none } : Dataset).name = d.name := fun _ => rfl
    have hfind : (Call.effect promotingHost u (.zfs (.promote n))).find m =
        (u.find m).map fun d => if d.name = n then { d with origin := none } else d :=
      find_mapDataset hname m
    rw [hfind]
    cases hm : u.find m with
    | none => rfl
    | some d =>
      have hdname : d.name = m := by simpa using List.find?_some hm
      rw [Option.map_some, Option.map_some, hdname]
  origin _ _ _ := rfl
  store := rfl

/-- The environment `b` is no clone, its child `x` is one. -/
def cloneChildSys : Sys :=
  sampleSys [{ name := "rpool/ROOT/a@s" },
    { name := "rpool/ROOT/b/x", origin := some "rpool/ROOT/a@s" }]

theorem tree_settled_iff_child :
    (∀ n, InTree cloneChildSys "rpool/ROOT/b" n →
      Settled (runActivateCb promotingHost "rpool/ROOT/b" cloneChildSys).2 n) ↔
    ∀ n, InTree cloneChildSys "rpool/ROOT/b" n →
      BehindNonClone cloneChildSys "rpool/ROOT/b" n → Settled cloneChildSys n :=
  tree_settled_iff (by decide +kernel) (promotingHost_rules _ _) (by decide +kernel)
    (run_eq_of_fst (by decide +kernel))

theorem child_left_clone : IsForest cloneChildSys.names ∧
    (runActivateCb promotingHost "rpool/ROOT/b" cloneChildSys).1 = 0 ∧
    InTree cloneChildSys "rpool/ROOT/b" "rpool/ROOT/b/x" ∧
    ¬ Settled (runActivateCb promotingHost "rpool/ROOT/b" cloneChildSys).2 "rpool/ROOT/b/x" := by
  refine ⟨by decide +kernel, by decide +kernel, ⟨by decide +kernel, by decide, by decide⟩, ?_⟩
  rintro ⟨d, hfind, horigin, -⟩
  have hclone : (runActivateCb promotingHost "rpool/ROOT/b" cloneChildSys).2.originOf
      "rpool/ROOT/b/x" = some "rpool/ROOT/a@s" := by decide +kernel
  rw [Sys.originOf, hfind, Option.bind_some, horigin] at hclone
  cases hclone

end Zectl.Libze.ActivateTree
