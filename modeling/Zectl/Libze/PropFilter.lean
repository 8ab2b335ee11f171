import Zectl.Libze.Property

/-!
# The properties of a namespace

The filter compares the part of a name before its last colon with the namespace, but only
their beginnings. Its test for the end of the namespace looks at names that are too short to
have one, and there at a character behind the terminator.
-/

namespace Zectl.Libze.PropFilter

open Zectl.Lib.PathOrder Zectl.Lib.KeyedList Zectl.Util.CString Zectl.Libze.Property

/-- User properties as ZFS hands them out. -/
structure IsUserProps (props : List (CStr × CStr)) : Prop where
  unique : (props.map Prod.fst).Nodup
  colon : ∀ e ∈ props, ':' ∈ e.1
  short : ∀ e ∈ props, e.1.length < zfsMaxproplen

/-- A property of the namespace itself or of a plugin under it. -/
def inNamespace (ns name : CStr) : Bool :=
  (ns ++ [':']).isPrefixOf name || (ns ++ ['.']).isPrefixOf name

/-- The character the filter looks at, one past the namespace, is behind the terminator. -/
def ReadsBeyond (ns name : CStr) : Prop :=
  name.length + 1 < ns.length + 1 ∧ name.length < ns.length + 1

/-- The filter stays inside the names and hands out exactly the properties of the namespace. -/
structure Filters (ns : CStr) (props : List (CStr × CStr)) : Prop where
  within : ∀ e ∈ props, ¬ ReadsBeyond ns e.1
  exact : ∀ beyond, libzeFilterBeProps beyond ns props [] =
    some (props.filter fun e => inNamespace ns e.1)

/-- A name that is not shorter than the namespace and tells where the namespace ends. -/
structure Tells (ns name : CStr) : Prop where
  long : ns.length ≤ name.length
  dotted : ∀ rest, name = ns ++ '.' :: rest → ':' ∈ rest
  apart : ∀ c rest, name = ns ++ c :: rest → c ≠ '.' → c ≠ ':' → ':' ∉ rest

section Names
variable {ns name : CStr}

/-- The comparison the filter makes. -/
def keeps (ns name : CStr) : Bool := ns.isPrefixOf (libzeUtilCut name zfsMaxproplen ':').2

theorem readsBeyond_iff : ReadsBeyond ns name ↔ name.length < ns.length := by
  unfold ReadsBeyond
  omega

theorem cut_userProp (hcolon : ':' ∈ name) (hshort : name.length < zfsMaxproplen) :
    ∃ before after, name = before ++ ':' :: after ∧ ':' ∉ after ∧
      libzeUtilCut name zfsMaxproplen ':' = (0, before) := by
  obtain ⟨⟨before, after⟩, hsplit⟩ :=
    Option.ne_none_iff_exists'.mp (mt splitLast_eq_none.mp (not_not.mpr hcolon))
  obtain ⟨heq, hlast⟩ := eq_append_of_splitLast hsplit
  exact ⟨before, after, heq, hlast, libzeUtilCut_eq_ok_iff.mpr ⟨hshort, after, heq, hlast⟩⟩

/-- The filter takes the names that begin with the namespace and have a colon behind it. -/
theorem keeps_iff (hcolon : ':' ∈ name) (hshort : name.length < zfsMaxproplen) :
    keeps ns name = true ↔ ∃ rest, name = ns ++ rest ∧ ':' ∈ rest := by
  obtain ⟨before, after, heq, hlast, hcut⟩ := cut_userProp hcolon hshort
  rw [keeps, hcut, List.isPrefixOf_iff_prefix]
  constructor
  · rintro ⟨middle, rfl⟩
    refine ⟨middle ++ ':' :: after, ?_, by simp⟩
    rw [heq, List.append_assoc]
  · rintro ⟨rest, hrest, hmem⟩
    obtain ⟨⟨middle, after'⟩, hsplit⟩ :=
      Option.ne_none_iff_exists'.mp (mt splitLast_eq_none.mp (not_not.mpr hmem))
    obtain ⟨rfl, hlast'⟩ := eq_append_of_splitLast hsplit
    have hsame : before ++ ':' :: after = (ns ++ middle) ++ ':' :: after' := by
      rw [← heq, hrest, List.append_assoc]
    exact ⟨middle, (append_cons_inj hlast hlast' hsame).1.symm⟩

theorem inNamespace_iff : inNamespace ns name = true ↔
    ∃ c rest, name = ns ++ c :: rest ∧ (c = ':' ∨ c = '.') := by
  have hpre : ∀ c : Char, (ns ++ [c]).isPrefixOf name = true ↔ ∃ rest, name = ns ++ c :: rest := by
    intro c
    rw [List.isPrefixOf_iff_prefix]
    constructor
    · rintro ⟨rest, rfl⟩
      exact ⟨rest, by simp⟩
    · rintro ⟨rest, rfl⟩
      exact ⟨rest, by simp⟩
  rw [inNamespace, Bool.or_eq_true, hpre, hpre]
  constructor
  · rintro (⟨rest, heq⟩ | ⟨rest, heq⟩)
    · exact ⟨':', rest, heq, .inl rfl⟩
    · exact ⟨'.', rest, heq, .inr rfl⟩
  · rintro ⟨c, rest, heq, rfl | rfl⟩
    · exact .inl ⟨rest, heq⟩
    · exact .inr ⟨rest, heq⟩

/-- What the filter takes is of the namespace exactly when the name tells where that ends. -/
theorem tells_iff (hcolon : ':' ∈ name) (hshort : name.length < zfsMaxproplen)
    (hlong : ns.length ≤ name.length) :
    Tells ns name ↔ keeps ns name = inNamespace ns name := by
  rw [Bool.eq_iff_iff, keeps_iff hcolon hshort, inNamespace_iff]
  constructor
  · intro h
    constructor
    · rintro ⟨rest, heq, hmem⟩
      cases rest with
      | nil => cases hmem
      | cons c rest =>
        refine ⟨c, rest, heq, ?_⟩
        by_contra hc
        obtain ⟨hne, hne'⟩ := not_or.mp hc
        rcases List.mem_cons.mp hmem with hmem | hmem
        · exact hne hmem.symm
        · exact h.apart c rest heq hne' hne hmem
    · rintro ⟨c, rest, heq, rfl | rfl⟩
      · exact ⟨_, heq, List.mem_cons_self⟩
      · exact ⟨_, heq, List.mem_cons_of_mem _ (h.dotted rest heq)⟩
  · intro h
    constructor
    · exact hlong
    · intro rest heq
      obtain ⟨rest', heq', hmem⟩ := h.mpr ⟨'.', rest, heq, .inr rfl⟩
      rw [heq, List.append_cancel_left_eq] at heq'
      rw [← heq'] at hmem
      exact List.mem_of_ne_of_mem (by decide) hmem
    · intro c rest heq hne hne' hmem
      obtain ⟨c', rest', heq', hc⟩ := h.mp ⟨_, heq, List.mem_cons_of_mem _ hmem⟩
      rw [heq, List.append_cancel_left_eq, List.cons.injEq] at heq'
      rw [← heq'.1] at hc
      exact hc.elim hne' hne

end Names

section Filter
variable {ns : CStr} {props found : List (CStr × CStr)} {beyond : Beyond}

theorem IsUserProps.tail {e : CStr × CStr} (h : IsUserProps (e :: props)) : IsUserProps props where
  unique := (List.nodup_cons.mp h.unique).2
  colon := fun f hf => h.colon f (List.mem_cons_of_mem _ hf)
  short := fun f hf => h.short f (List.mem_cons_of_mem _ hf)

/-- Over names that are long enough the loop adds what it compares equal. -/
theorem libzeFilterBeProps_long (h : IsUserProps props)
    (hlong : ∀ e ∈ props, ns.length ≤ e.1.length) :
    libzeFilterBeProps beyond ns props found =
      some ((props.filter fun e => keeps ns e.1).foldl put found) := by
  induction props generalizing found with
  | nil => rfl
  | cons e rest ih =>
    obtain ⟨before, after, -, -, hcut⟩ :=
      cut_userProp (h.colon e List.mem_cons_self) (h.short e List.mem_cons_self)
    have he := hlong e List.mem_cons_self
    have hrest := fun f hf => hlong f (List.mem_cons_of_mem e hf)
    rw [libzeFilterBeProps, if_neg (by omega), hcut]
    show libzeFilterBeProps beyond ns rest (if ns.isPrefixOf before then put found e else found) = _
    rw [ih h.tail hrest, List.filter_cons, keeps, hcut]
    by_cases hpre : ns.isPrefixOf before = true
    · rw [if_pos hpre, if_pos hpre, List.foldl_cons]
    · rw [if_neg hpre, if_neg hpre]

theorem libzeFilterBeProps_eq (h : IsUserProps props)
    (hlong : ∀ e ∈ props, ns.length ≤ e.1.length) :
    libzeFilterBeProps beyond ns props [] = some (props.filter fun e => keeps ns e.1) := by
  have hnodup : ((props.filter fun e => keeps ns e.1).map Prod.fst).Nodup :=
    h.unique.sublist (List.filter_sublist.map _)
  rw [libzeFilterBeProps_long h hlong, foldl_put_of_nodup (by simpa using hnodup), List.nil_append]

/-- The filter does what it says exactly on lists whose names all tell where the namespace ends. -/
theorem filters_iff (h : IsUserProps props) :
    Filters ns props ↔ ∀ e ∈ props, Tells ns e.1 := by
  constructor
  · intro hfilters e he
    have hlong : ∀ f ∈ props, ns.length ≤ f.1.length := fun f hf =>
      Nat.not_lt.mp (mt readsBeyond_iff.mpr (hfilters.within f hf))
    have hsame := hfilters.exact ⟨fun _ => [], fun _ => 'x'⟩
    rw [libzeFilterBeProps_eq h hlong, Option.some.injEq] at hsame
    have hmem : e ∈ props.filter (fun f => keeps ns f.1) ↔
        e ∈ props.filter fun f => inNamespace ns f.1 := by rw [hsame]
    rw [List.mem_filter, List.mem_filter, and_congr_right_iff, ← Bool.eq_iff_iff] at hmem
    exact (tells_iff (h.colon e he) (h.short e he) (hlong e he)).mpr (hmem he)
  · intro htells
    have hlong : ∀ f ∈ props, ns.length ≤ f.1.length := fun f hf => (htells f hf).long
    constructor
    · exact fun e he => mt readsBeyond_iff.mp (Nat.not_lt.mpr (hlong e he))
    · intro beyond
      rw [libzeFilterBeProps_eq h hlong, Option.some.injEq]
      apply List.filter_congr
      intro e he
      exact (tells_iff (h.colon e he) (h.short e he) (hlong e he)).mp (htells e he)

end Filter

theorem isUserProps_pair : IsUserProps [("org.zectl:bootloader", "systemdboot"),
    ("org.zectl.systemdboot:efi", "/efi")] where
  unique := by decide +kernel
  colon := by decide +kernel
  short := by decide +kernel

theorem filters_pair : Filters zePropNamespace [("org.zectl:bootloader", "systemdboot"),
      ("org.zectl.systemdboot:efi", "/efi")] ↔
    ∀ e ∈ [("org.zectl:bootloader".toList, "systemdboot".toList),
      ("org.zectl.systemdboot:efi".toList, "/efi".toList)], Tells zePropNamespace e.1 :=
  filters_iff isUserProps_pair

/-- A property of a namespace that begins with the same letters is handed out, and a short
name is read behind its end. -/
theorem not_filters : IsUserProps [("org.zectlx:note", "1")] ∧
    ¬ Filters zePropNamespace [("org.zectlx:note", "1")] ∧
    ¬ Filters zePropNamespace [("a:b", "1")] := by
  refine ⟨⟨by decide +kernel, by decide +kernel, by decide +kernel⟩, ?_, ?_⟩
  · intro h
    have hfound := h.exact ⟨fun _ => [], fun _ => 'x'⟩
    have hkept : libzeFilterBeProps ⟨fun _ => [], fun _ => 'x'⟩ zePropNamespace
        [("org.zectlx:note", "1")] [] = some [("org.zectlx:note".toList, "1".toList)] := by
      decide +kernel
    have hnone : ([("org.zectlx:note".toList, "1".toList)].filter fun e =>
        inNamespace zePropNamespace e.1) = [] := by decide +kernel
    rw [hkept, hnone] at hfound
    cases hfound
  · intro h
    have hshort := h.within _ List.mem_cons_self
    rw [readsBeyond_iff] at hshort
    exact hshort (by decide +kernel)

end Zectl.Libze.PropFilter
