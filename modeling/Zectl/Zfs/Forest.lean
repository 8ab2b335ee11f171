import Zectl.Lib.Visit
import Zectl.Lib.Preorder
import Zectl.Zfs.System
import Mathlib.Data.List.Nodup
import Mathlib.Data.Option.Basic

/-!
# The dataset forest

Well formed dataset names, the parent of a name, and name lists in which every
parent is present. On such a list the textual order `AtOrBelow` is the hierarchy
of the parent function, which is what a recursion over children goes through.
-/

namespace Zectl.Zfs.Forest

open Zectl.Lib.PathOrder Zectl.Lib.Preorder Zectl.Lib.Visit Zectl.Util.CString Zectl.Zfs.System

/-- `fresh` at the start of a component, `inSnap` behind the `@`. -/
def validFrom (fresh inSnap : Bool) : CStr → Bool
  | [] => !fresh
  | c :: rest =>
    if c = '/' then !fresh && !inSnap && validFrom true false rest
    else if c = '@' then !fresh && !inSnap && validFrom true true rest
    else validFrom false inSnap rest

/-- Components that are not empty, and at most one snapshot component, the last. -/
def validName (n : CStr) : Bool := validFrom true false n

def parentOf (m : CStr) : Option CStr :=
  match splitLast '@' m with
  | some (ds, _) => some ds
  | none => (splitLast '/' m).map Prod.fst

/-! ## Names -/

theorem validFrom_inSnap {fresh : Bool} {b : CStr} (h : validFrom fresh true b = true) :
    '/' ∉ b ∧ '@' ∉ b := by
  induction b generalizing fresh with
  | nil => simp
  | cons c rest ih =>
    by_cases hs : c = '/'
    · simp [validFrom, hs] at h
    by_cases ha : c = '@'
    · simp [validFrom, ha] at h
    rw [validFrom, if_neg hs, if_neg ha] at h
    obtain ⟨h1, h2⟩ := ih h
    simp [h1, h2, Ne.symm hs, Ne.symm ha]

/-- What a separator inside a valid name has on its two sides. -/
theorem validFrom_append {fresh inSnap : Bool} {a b : CStr} {c : Char} (hc : IsDatasetSep c)
    (h : validFrom fresh inSnap (a ++ c :: b) = true) :
    validFrom fresh inSnap a = true ∧ '@' ∉ a ∧ validFrom true (c = '@') b = true := by
  induction a generalizing fresh inSnap with
  | nil =>
    obtain rfl | rfl := hc
    · simp [validFrom] at h ⊢
      exact ⟨h.1.1, h.2⟩
    · simp [validFrom] at h ⊢
      exact ⟨h.1.1, h.2⟩
  | cons x rest ih =>
    rw [List.cons_append] at h
    by_cases hs : x = '/'
    · subst hs
      simp only [validFrom, if_pos, Bool.and_eq_true] at h ⊢
      obtain ⟨h1, h2, h3⟩ := ih h.2
      exact ⟨⟨h.1, h1⟩, by simpa using h2, h3⟩
    by_cases ha : x = '@'
    · subst ha
      simp only [validFrom, if_pos, if_neg hs, Bool.and_eq_true] at h
      obtain ⟨hns, hna⟩ := validFrom_inSnap h.2
      obtain rfl | rfl := hc
      · simp at hns
      · simp at hna
    rw [validFrom, if_neg hs, if_neg ha] at h ⊢
    obtain ⟨h1, h2, h3⟩ := ih h
    exact ⟨h1, by simpa [Ne.symm ha] using h2, h3⟩

/-- A path below a filesystem. -/
theorem validFrom_join {fresh : Bool} {a b : CStr} (ha : validFrom fresh false a = true)
    (hflat : '@' ∉ a) (hb : validName b = true) : validFrom fresh false (a ++ '/' :: b) = true := by
  induction a generalizing fresh with
  | nil =>
    have hb' : validFrom true false b = true := hb
    simpa [validFrom, hb'] using ha
  | cons x rest ih =>
    have hrest : '@' ∉ rest := fun hmem => hflat (List.mem_cons_of_mem x hmem)
    have hx : x ≠ '@' := fun heq => hflat (heq ▸ List.mem_cons_self)
    rw [List.cons_append]
    by_cases hs : x = '/'
    · subst hs
      simp only [validFrom, if_pos, Bool.and_eq_true] at ha ⊢
      exact ⟨ha.1, ih ha.2 hrest⟩
    · rw [validFrom, if_neg hs, if_neg hx] at ha ⊢
      exact ih ha hrest

theorem parentOf_eq_some {m p : CStr} (h : parentOf m = some p) :
    ∃ c r, IsDatasetSep c ∧ m = p ++ c :: r := by
  unfold parentOf at h
  split at h
  · rename_i ds b hs
    cases h
    exact ⟨'@', b, .inr rfl, (splitLast_eq_some.mp hs).1⟩
  · cases hs : splitLast '/' m with
    | none => simp [hs] at h
    | some ab =>
      obtain ⟨a, b⟩ := ab
      simp only [hs, Option.map_some, Option.some.injEq] at h
      subst h
      exact ⟨'/', b, .inl rfl, (splitLast_eq_some.mp hs).1⟩

theorem atOrBelow_of_parentOf {m p : CStr} (h : parentOf m = some p) : AtOrBelow p m :=
  .inr (parentOf_eq_some h)

theorem parentOf_length_lt {m p : CStr} (h : parentOf m = some p) : p.length < m.length := by
  obtain ⟨c, r, _, rfl⟩ := parentOf_eq_some h
  simp

/-- Nothing of a snapshot's is below it. -/
theorem not_isSnapshotName_of_parentOf {m p : CStr} (h : parentOf m = some p)
    (hm : validName m = true) : isSnapshotName p = false := by
  obtain ⟨c, r, hc, rfl⟩ := parentOf_eq_some h
  simpa [isSnapshotName] using (validFrom_append hc hm).2.1

theorem isSnapshotName_of_atOrBelow {a n : CStr} (h : AtOrBelow a n)
    (hn : isSnapshotName n = false) : isSnapshotName a = false := by
  obtain rfl | ⟨c, r, _, rfl⟩ := h
  · exact hn
  · simp only [isSnapshotName, List.mem_append, decide_eq_false_iff_not, not_or] at hn ⊢
    exact hn.1

/-- A snapshot has nothing below it. -/
theorem eq_of_atOrBelow_snapshot {a n : CStr} (h : AtOrBelow a n) (ha : isSnapshotName a = true)
    (hn : validName n = true) : n = a := by
  obtain rfl | ⟨c, r, hc, rfl⟩ := h
  · rfl
  · have hat := (validFrom_append hc hn).2.1
    simp [isSnapshotName, hat] at ha

/-- Of two cuts of one name the left one is above the right one. -/
theorem atOrBelow_of_append_eq {a p r b : CStr} {c d : Char} (hc : IsDatasetSep c)
    (h : a ++ c :: r = p ++ d :: b) (hlen : a.length ≤ p.length) : AtOrBelow a p := by
  obtain ⟨t, rfl⟩ : a <+: p :=
    List.prefix_of_prefix_length_le ⟨c :: r, h⟩ (List.prefix_append p (d :: b)) hlen
  cases t with
  | nil => simp
  | cons x t =>
    simp only [List.append_assoc, List.append_cancel_left_eq, List.cons_append,
      List.cons.injEq] at h
    exact h.1 ▸ under_append hc t

/-- The symbol of the right cut lies behind the left cut. -/
theorem mem_of_append_eq {a p r b : CStr} {c d : Char} (h : a ++ c :: r = p ++ d :: b)
    (hlen : p.length < a.length) : c ∈ b := by
  obtain ⟨t, rfl⟩ : p <+: a := List.prefix_of_prefix_length_le ⟨d :: b, h.symm⟩
    (List.prefix_append a (c :: r)) hlen.le
  cases t with
  | nil => simp at hlen
  | cons x t =>
    simp only [List.append_assoc, List.append_cancel_left_eq, List.cons_append,
      List.cons.injEq] at h
    rw [← h.2]
    simp

/-- Between a proper ancestor and a valid name lies the name's parent. -/
theorem exists_parentOf {a n : CStr} (hn : validName n = true) (h : AtOrBelow a n)
    (hne : n ≠ a) : ∃ p, parentOf n = some p ∧ AtOrBelow a p := by
  obtain rfl | ⟨c, r, hc, rfl⟩ := h
  · exact absurd rfl hne
  unfold parentOf
  cases hat : splitLast '@' (a ++ c :: r) with
  | some ab =>
    obtain ⟨p, b⟩ := ab
    obtain ⟨he, _⟩ := splitLast_eq_some.mp hat
    refine ⟨p, rfl, atOrBelow_of_append_eq hc he ?_⟩
    by_contra hlt
    have hmem := mem_of_append_eq he (by omega)
    obtain ⟨hns, hna⟩ := validFrom_inSnap (validFrom_append (.inr rfl) (he ▸ hn)).2.2
    obtain rfl | rfl := hc
    · exact hns hmem
    · exact hna hmem
  | none =>
    have hna := splitLast_eq_none.mp hat
    obtain rfl | rfl := hc
    · cases hs : splitLast '/' (a ++ '/' :: r) with
      | none => simp [splitLast_eq_none] at hs
      | some ab =>
        obtain ⟨p, b⟩ := ab
        obtain ⟨he, hb⟩ := splitLast_eq_some.mp hs
        refine ⟨p, rfl, atOrBelow_of_append_eq (.inl rfl) he ?_⟩
        by_contra hlt
        exact hb (mem_of_append_eq he (by omega))
    · simp at hna

/-! ## Forests -/

/-- A list of dataset names as a pool has it. -/
structure IsForest (names : List CStr) : Prop where
  nodup : names.Nodup
  valid : ∀ n ∈ names, validName n = true
  parent : ∀ n ∈ names, ∀ p ∈ parentOf n, p ∈ names

instance (names : List CStr) : Decidable (IsForest names) :=
  decidable_of_iff (names.Nodup ∧ (∀ n ∈ names, validName n = true) ∧
    ∀ n ∈ names, ∀ p ∈ parentOf n, p ∈ names)
    ⟨fun h => ⟨h.1, h.2.1, h.2.2⟩, fun h => ⟨h.nodup, h.valid, h.parent⟩⟩

/-- The children of a dataset in the order libzfs lists them. -/
def children (s : Sys) (n : CStr) : List CStr := s.names.filter fun m => parentOf m = some n

def childFilesystems (s : Sys) (n : CStr) : List CStr :=
  (children s n).filter fun m => ¬ isSnapshotName m

/-- The names of the filesystems, which no promotion changes. -/
def filesystems (s : Sys) : List CStr := s.names.filter fun n => ¬ isSnapshotName n

/-- A dataset that has children, snapshots or clones. -/
def inUse (s : Sys) (n : CStr) : Bool :=
  children s n ≠ [] ∨ ∃ d ∈ s.datasets, d.origin = some n

/-- Every clone has its origin. -/
def OriginsPresent (s : Sys) : Prop := ∀ d ∈ s.datasets, ∀ o ∈ d.origin, o ∈ s.names

instance (s : Sys) : Decidable (OriginsPresent s) :=
  inferInstanceAs (Decidable (∀ d ∈ s.datasets, ∀ o ∈ d.origin, o ∈ s.names))

/-- What libzfs documents of `zfs_destroy`. -/
def DestroyRule (host : Host) : Prop :=
  ∀ s n, n ∈ s.names → (host.answer s (.zfs (.destroy n)) = 0 ↔ inUse s n = false)

/-- A clone takes a name that is free. -/
def CloneRule (host : Host) : Prop :=
  ∀ s snap target props, target ∈ s.names → host.answer s (.zfs (.clone snap target props)) ≠ 0

/-- A snapshot is taken of a filesystem that is there. -/
def SnapshotRule (host : Host) : Prop :=
  ∀ s ds suffix recursive, '@' ∉ suffix →
    host.answer s (.zfs (.snapshot (ds ++ '@' :: suffix) recursive)) = 0 →
    s.datasetExists ds .filesystem = true

/-- The datasets as libzfs keeps them. -/
structure WellFormed (s : Sys) : Prop where
  forest : IsForest s.names
  origins : OriginsPresent s
  snapshots : ∀ d ∈ s.datasets, ∀ o ∈ d.origin, isSnapshotName o = true

instance (s : Sys) : Decidable (WellFormed s) :=
  decidable_of_iff (IsForest s.names ∧ OriginsPresent s ∧
    ∀ d ∈ s.datasets, ∀ o ∈ d.origin, isSnapshotName o = true)
    ⟨fun h => ⟨h.1, h.2.1, h.2.2⟩, fun h => ⟨h.forest, h.origins, h.snapshots⟩⟩

/-- libzfs refuses a call behind which the datasets would not be well formed. -/
def KeepsPools (host : Host) : Prop :=
  ∀ s c, WellFormed s → host.answer s (.zfs c) = 0 → WellFormed (c.effect host s)

/-- A bound on the length of every name, and so on the depth of the hierarchy. -/
def maxNameLength (s : Sys) : Nat := (s.names.map List.length).foldr max 0

/-- A depth no recursion over children reaches. -/
def recursionDepth (s : Sys) : Nat := maxNameLength s + 2

section
variable {names : List CStr} {s t : Sys} {n m : CStr}

theorem WellFormed.of_datasets (hs : WellFormed s) (ht : t.datasets = s.datasets) :
    WellFormed t := by
  obtain ⟨hforest, horigins, hsnaps⟩ := hs
  unfold OriginsPresent Sys.names at *
  rw [← ht] at hforest horigins hsnaps
  exact ⟨hforest, horigins, hsnaps⟩

theorem mem_children : m ∈ children s n ↔ m ∈ s.names ∧ parentOf m = some n := by
  simp [children]

theorem mem_childFilesystems :
    m ∈ childFilesystems s n ↔
      m ∈ s.names ∧ parentOf m = some n ∧ isSnapshotName m = false := by
  simp [childFilesystems, mem_children, and_assoc]

theorem filesystems_of_names (h : t.names = s.names) : filesystems t = filesystems s := by
  rw [filesystems, h, filesystems]

theorem childFilesystems_of_filesystems (h : filesystems t = filesystems s) :
    childFilesystems t = childFilesystems s := by
  have hkids : ∀ u : Sys, ∀ n, childFilesystems u n =
      (filesystems u).filter fun m => parentOf m = some n := by
    intro u n
    rw [childFilesystems, children, filesystems, List.filter_comm]
  funext n
  rw [hkids, hkids, h]

theorem length_le_maxNameLength (h : n ∈ s.names) : n.length ≤ maxNameLength s := by
  have hfold : ∀ (l : List CStr), n ∈ l → n.length ≤ (l.map List.length).foldr max 0 := by
    intro l hl
    induction l with
    | nil => cases hl
    | cons x rest ih =>
      simp only [List.map_cons, List.foldr_cons]
      obtain rfl | hl := List.mem_cons.mp hl
      · omega
      · have := ih hl
        omega
  exact hfold s.names h

theorem IsForest.descends (hf : IsForest names) {a : CStr} (hn : n ∈ names) (h : AtOrBelow a n) :
    Descends parentOf a n := by
  induction hlen : n.length using Nat.strong_induction_on generalizing n with
  | _ k ih =>
    by_cases hne : n = a
    · rw [hne]
      exact Descends.refl a
    · obtain ⟨p, hp, hap⟩ := exists_parentOf (hf.valid n hn) h hne
      have hlt := parentOf_length_lt hp
      exact descends_of_parent hp (ih p.length (by omega) (hf.parent n hn p hp) hap rfl)

theorem atOrBelow_of_descends {a : CStr} (h : Descends parentOf a n) : AtOrBelow a n := by
  induction h with
  | refl => exact under_refl
  | tail _ hbc ih => exact ih.trans (atOrBelow_of_parentOf hbc)

/-- Whatever is properly below a dataset is at or below one of its children. -/
theorem IsForest.exists_child (hf : IsForest s.names) (hm : m ∈ s.names) (h : AtOrBelow n m)
    (hne : m ≠ n) : ∃ c ∈ children s n, AtOrBelow c m := by
  obtain ⟨c, hc, hmem, hcm⟩ := (hf.descends hm h).exists_child hne
    (fun x => x ∈ s.names) (fun x p hx hp => hf.parent x hx p hp) hm
  exact ⟨c, mem_children.mpr ⟨hmem, hc⟩, atOrBelow_of_descends hcm⟩

/-- A dataset without children can be taken out. -/
theorem IsForest.remove_leaf (hf : IsForest names) (hleaf : ∀ m ∈ names, parentOf m ≠ some n) :
    IsForest (names.filter fun m => m ≠ n) := by
  refine ⟨hf.nodup.filter _, ?_, ?_⟩
  · intro m hm
    exact hf.valid m (List.mem_of_mem_filter hm)
  · intro m hm p hp
    have hmem := List.mem_of_mem_filter hm
    refine List.mem_filter.mpr ⟨hf.parent m hmem p hp, ?_⟩
    have hne : p ≠ n := fun he => hleaf m hmem (he ▸ hp)
    simpa using hne

/-- Above a dataset of the forest every name is a dataset of the forest. -/
theorem IsForest.mem_of_atOrBelow (hf : IsForest names) (hm : m ∈ names) (h : AtOrBelow n m) :
    n ∈ names := by
  have hd := hf.descends hm h
  clear h
  induction hd using Relation.ReflTransGen.head_induction_on with
  | refl => exact hm
  | head hab _ ih => exact hf.parent _ ih _ hab

end

/-! ## Depth -/

/-- The depth left for a dataset exceeds the length of every name below it; an origin
snapshot has nothing below it. -/
def Enough (s : Sys) (ds : CStr) (depth : Nat) : Prop :=
  (2 ≤ depth ∧ ∀ n ∈ s.names, AtOrBelow ds n → n.length + 2 ≤ ds.length + depth) ∨
    (1 ≤ depth ∧ isSnapshotName ds = true)

theorem Enough.child {s : Sys} {ds c : CStr} {depth : Nat} (hs : IsForest s.names)
    (h : Enough s ds (depth + 1)) (hc : c ∈ children s ds) : Enough s c depth := by
  obtain ⟨hmem, hparent⟩ := mem_children.mp hc
  have hlt := parentOf_length_lt hparent
  have hbelow := atOrBelow_of_parentOf hparent
  obtain ⟨_, hlen⟩ | ⟨_, hsnap⟩ := h
  · left
    refine ⟨?_, fun n hn hcn => ?_⟩
    · have := hlen c hmem hbelow
      omega
    · have := hlen n hn (hbelow.trans hcn)
      omega
  · rw [not_isSnapshotName_of_parentOf hparent (hs.valid c hmem)] at hsnap
    cases hsnap

theorem Enough.of_subset {s t : Sys} {ds : CStr} {depth : Nat} (h : Enough s ds depth)
    (hsub : ∀ n ∈ t.names, n ∈ s.names) : Enough t ds depth := by
  obtain ⟨hdepth, hlen⟩ | hsnap := h
  · exact .inl ⟨hdepth, fun n hn => hlen n (hsub n hn)⟩
  · exact .inr hsnap

theorem enough_recursionDepth (s : Sys) (ds : CStr) : Enough s ds (recursionDepth s) := by
  refine .inl ⟨by simp [recursionDepth], fun n hn _ => ?_⟩
  have := length_le_maxNameLength hn
  rw [recursionDepth]
  omega

/-! ## The filesystems of a tree -/

theorem IsForest.ranked {s : Sys} (hs : IsForest s.names) :
    Ranked parentOf (childFilesystems s) List.length where
  parent_of_mem hc := (mem_childFilesystems.mp hc).2.1
  nodup n := by
    have hchildren : (children s n).Nodup := hs.nodup.filter _
    exact hchildren.filter _
  rank_lt := parentOf_length_lt

/-- The filesystems at or below a dataset, every one after those above it. -/
def subtree (s : Sys) (n : CStr) : List CStr := preorder (childFilesystems s) (recursionDepth s) n

theorem subtree_of_names {s t : Sys} (h : t.names = s.names) (n : CStr) :
    subtree t n = subtree s n := by
  rw [subtree, childFilesystems_of_filesystems (filesystems_of_names h), recursionDepth,
    maxNameLength, h]
  rfl

theorem mem_subtree {s : Sys} {n m : CStr} (hs : IsForest s.names) (hn : n ∈ s.names)
    (hfs : isSnapshotName n = false) :
    m ∈ subtree s n ↔ m ∈ s.names ∧ isSnapshotName m = false ∧ AtOrBelow n m := by
  constructor
  · intro hm
    have hbelow := atOrBelow_of_descends (hs.ranked.descends_of_mem hm)
    have hkids : ∀ x c, c ∈ childFilesystems s x → c ∈ s.names ∧ isSnapshotName c = false :=
      fun x c hc => ⟨(mem_childFilesystems.mp hc).1, (mem_childFilesystems.mp hc).2.2⟩
    obtain rfl | ⟨hmem, hmfs⟩ := eq_or_of_mem_preorder hkids hm
    · exact ⟨hn, hfs, hbelow⟩
    · exact ⟨hmem, hmfs, hbelow⟩
  · rintro ⟨hm, hmfs, hbelow⟩
    refine hs.ranked.mem_preorder (fun x => x ∈ s.names ∧ isSnapshotName x = false) ?_ ?_
      ⟨hm, hmfs⟩ (hs.descends hm hbelow) ?_
    · intro x p hx hp
      exact ⟨hs.parent x hx.1 p hp, not_isSnapshotName_of_parentOf hp (hs.valid x hx.1)⟩
    · exact fun x c hc hp => mem_childFilesystems.mpr ⟨hc.1, hp, hc.2⟩
    · have hlen := length_le_maxNameLength hm
      rw [recursionDepth]
      omega

end Zectl.Zfs.Forest
