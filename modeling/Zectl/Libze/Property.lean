import Zectl.Lib.KeyedList
import Zectl.Libze.Sample

/-!
# Setting and getting properties

`parse_property` cuts its argument at the first colon, also when it is given `name=value`
and the colon is part of the value. The properties of the environments are the user
properties of their root under the namespace of the program.
-/

namespace Zectl.Libze.Property

open Zectl.Lib.StateRun Zectl.Lib.PathOrder Zectl.Lib.KeyedList Zectl.Util.CString
open Zectl.Zfs.System Zectl.Zfs.Steps Zectl.Libze.Init Zectl.Libze.Sample

/-- Both parts around the first delimiter, as `strchr` finds it. -/
def splitFirst (delimiter : Char) (text : CStr) : Option (CStr × CStr) :=
  if delimiter ∈ text then
    some (text.takeWhile (· ≠ delimiter), (text.dropWhile (· ≠ delimiter)).tail)
  else none

/-- `parse_property`: the namespace and what is behind the colon, unless it is too long. -/
def parseProperty (property : CStr) : Option (CStr × CStr) :=
  let (len, tempProp) := strlcpy property zfsMaxproplen
  if zfsMaxproplen ≤ len then none else
  match splitFirst ':' tempProp with
  | none => some (zePropNamespace, tempProp)
  | some (before, suffixValue) =>
    let (code, propPrefix) := libzeUtilConcat zePropNamespace "." before zfsMaxproplen
    if code ≠ 0 then none else some (propPrefix, suffixValue)

/-- `libze_add_set_property` with the list it leaves. -/
def libzeAddSetProperty (properties : List (CStr × CStr)) (property : CStr) :
    LibzeError × List (CStr × CStr) :=
  match parseProperty property with
  | none => (.maxpathlen, properties)
  | some (propPrefix, propAfterColon) =>
    match splitFirst '=' propAfterColon with
    | none => (.unknown, properties)
    | some (name, value) =>
      let (code, propFullName) := libzeUtilConcat propPrefix ":" name zfsMaxproplen
      if code ≠ 0 then (.minusOne, properties)
      else if propFullName ∈ properties.map Prod.fst then (.unknown, properties)
      else (.success, put properties (propFullName, value))

/-- The loop of `libze_add_get_property` over the properties of the handle. -/
def addMatching (name : CStr) (zeProps properties : List (CStr × CStr)) : List (CStr × CStr) :=
  zeProps.foldl (fun found pair => if pair.1 = name then put found pair else found) properties

/-- `libze_add_get_property` with the list it leaves. -/
def libzeAddGetProperty (h : Handle) (properties : List (CStr × CStr)) (property : CStr) :
    Libze (LibzeError × List (CStr × CStr)) := do
  match parseProperty property with
  | none =>
    return (← libzeErrorSet .maxpathlen (format ["property '", property, "' is too long\n"]),
      properties)
  | some (propPrefix, propAfterColon) =>
    let (code, propFullName) := libzeUtilConcat propPrefix ":" propAfterColon zfsMaxproplen
    if code ≠ 0 then
      return (← libzeErrorSet .minusOne (format ["property '", property, "' is too long\n"]),
        properties)
    let found := addMatching propFullName h.zeProps properties
    if found = [] then return (.success, put found (propFullName, "-"))
    return (.success, found)

/-- `libze_dataset_set` -/
def libzeDatasetSet (host : Host) (dataset : CStr) (properties : List (CStr × CStr)) :
    Libze LibzeError := do
  if (← zfsOpen host dataset .filesystem) ≠ 0 then
    return ← libzeErrorSet .zfsOpen (format ["Failed to open ", dataset, "\n"])
  if (← call host (.zfs (.propSetList dataset (properties.map fun p => (.other p.1, p.2))))) ≠ 0 then
    return ← libzeErrorSet .unknown "Failed to set properties\n"
  return .success

/-- `libze_set` -/
def libzeSet (host : Host) (h : Handle) (properties : List (CStr × CStr)) : Libze LibzeError :=
  libzeDatasetSet host h.envRoot properties

/-- What the code reads that is not in the pools of the model: the user properties a dataset
inherits, and the character behind the end of a name. -/
structure Beyond where
  inherited : CStr → List (CStr × CStr)
  char : CStr → Char

def userProp (e : PropEntry) : Option (CStr × CStr) :=
  match e.prop with
  | .other name => if ':' ∈ name then some (name, e.value) else none
  | _ => none

/-- `zfs_get_user_props`: what is set on the dataset hides what is inherited. -/
def zfsGetUserProps (beyond : Beyond) (s : Sys) (dataset : CStr) : List (CStr × CStr) :=
  let own := ((s.find dataset).elim [] Dataset.props).filterMap userProp
  own ++ (beyond.inherited dataset).filter fun e => e.1 ∉ own.map Prod.fst

/-- `libze_filter_be_props`. A name shorter than the namespace is read behind its end. -/
def libzeFilterBeProps (beyond : Beyond) (pfx : CStr) :
    List (CStr × CStr) → List (CStr × CStr) → Option (List (CStr × CStr))
  | [], result => some result
  | pair :: rest, result =>
    if pair.1.length + 1 < pfx.length + 1 ∧ beyond.char pair.1 ≠ '.' ∧ beyond.char pair.1 ≠ ':' then
      libzeFilterBeProps beyond pfx rest result
    else
      match libzeUtilCut pair.1 zfsMaxproplen ':' with
      | (0, buf) =>
        libzeFilterBeProps beyond pfx rest (if pfx.isPrefixOf buf then put result pair else result)
      | _ => none

/-- `libze_dataset_props_get` -/
def libzeDatasetPropsGet (host : Host) (beyond : Beyond) (h : Handle) (dataset pfx : CStr) :
    Libze (LibzeError × List (CStr × CStr)) := do
  if (← zfsOpen host dataset .filesystem) ≠ 0 then
    return (← libzeErrorSet .unknown (format ["Failed opening handle to ", h.envRoot, ".\n"]), [])
  match libzeFilterBeProps beyond pfx (zfsGetUserProps beyond (← get) dataset) [] with
  | none => return (.unknown, [])
  | some filtered => return (.success, filtered)

/-- `libze_be_props_get` -/
def libzeBePropsGet (host : Host) (beyond : Beyond) (h : Handle) (pfx : CStr) :
    Libze (LibzeError × List (CStr × CStr)) :=
  libzeDatasetPropsGet host beyond h h.envRoot pfx

/-! ## Set and get -/

/-- A text behind its prefix. -/
def withPrefix (pfx : Option CStr) (text : CStr) : CStr :=
  match pfx with
  | none => text
  | some p => p ++ ':' :: text

/-- The argument of a set: `p:n=v`, or `n=v` without a prefix. -/
def setText (pfx : Option CStr) (name value : CStr) : CStr := withPrefix pfx (name ++ '=' :: value)

/-- The namespace of a property with a prefix. -/
def propNamespace (pfx : Option CStr) : CStr :=
  match pfx with
  | none => zePropNamespace
  | some p => zePropNamespace ++ '.' :: p

/-- The ZFS property a name stands for. -/
def fullName (pfx : Option CStr) (name : CStr) : CStr := propNamespace pfx ++ ':' :: name

/-- A prefix and a name without separators, which leave room for the value. -/
structure Argument (pfx : Option CStr) (name value : CStr) : Prop where
  pfx_flat : ∀ p ∈ pfx, ':' ∉ p ∧ '=' ∉ p
  name_flat : ':' ∉ name ∧ '=' ∉ name
  set_fits : (setText pfx name value).length < zfsMaxproplen
  full_fits : (fullName pfx name).length < zfsMaxproplen

/-- The handle after the list was stored on the root and read back, in any later command. -/
def ReadBack (host : Host) (beyond : Beyond) (h h' : Handle) (properties : List (CStr × CStr))
    (s t : Sys) : Prop :=
  ∃ u, libzeSet host h properties s = (.success, u) ∧
    libzeBePropsGet host beyond h zePropNamespace u = ((.success, h'.zeProps), t)

/-- Setting a property and getting it back agree. -/
structure SetGet (pfx : Option CStr) (name value : CStr) : Prop where
  set : ∀ properties : List (CStr × CStr), fullName pfx name ∉ properties.map Prod.fst →
    libzeAddSetProperty properties (setText pfx name value) =
      (.success, properties ++ [(fullName pfx name, value)])
  lookup : ∀ h s, (libzeAddGetProperty h [] (withPrefix pfx name) s).1.2.map Prod.fst =
    [fullName pfx name]
  back : ∀ host beyond h h' properties s t, fullName pfx name ∉ properties.map Prod.fst →
    host.propStore (.other (fullName pfx name)) value = value →
    ReadBack host beyond h h' (libzeAddSetProperty properties (setText pfx name value)).2 s t →
    libzeAddGetProperty h' [] (withPrefix pfx name) t =
      ((.success, [(fullName pfx name, value)]), t)

section Parse
variable {delimiter : Char} {before after text : CStr} {pfx : Option CStr} {name value : CStr}

theorem splitFirst_append (h : delimiter ∉ before) :
    splitFirst delimiter (before ++ delimiter :: after) = some (before, after) := by
  have hkeep : ∀ c ∈ before, decide (c ≠ delimiter) = true := by
    intro c hc
    have hne : c ≠ delimiter := fun heq => h (heq ▸ hc)
    simpa using hne
  rw [splitFirst, if_pos (by simp), List.takeWhile_append_of_pos hkeep,
    List.dropWhile_append_of_pos hkeep, List.takeWhile_cons_of_neg (by simp),
    List.dropWhile_cons_of_neg (by simp), List.append_nil, List.tail_cons]

theorem splitFirst_of_not_mem (h : delimiter ∉ text) : splitFirst delimiter text = none :=
  if_neg h

theorem eq_append_of_splitFirst (h : splitFirst delimiter text = some (before, after)) :
    text = before ++ delimiter :: after := by
  by_cases hmem : delimiter ∈ text
  · obtain ⟨as, bs, rfl, has⟩ := List.eq_append_cons_of_mem hmem
    rw [splitFirst_append has] at h
    cases h
    rfl
  · rw [splitFirst_of_not_mem hmem] at h
    cases h

theorem parseProperty_short (h : text.length < zfsMaxproplen) :
    parseProperty text = match splitFirst ':' text with
      | none => some (zePropNamespace, text)
      | some (before, suffixValue) =>
        let (code, propPrefix) := libzeUtilConcat zePropNamespace "." before zfsMaxproplen
        if code ≠ 0 then none else some (propPrefix, suffixValue) := by
  unfold parseProperty
  dsimp only [strlcpy]
  rw [if_neg (Nat.not_le.mpr h), take_of_fits h]

/-- The parser finds the prefix it was given, if there is one or nothing looks like one. -/
theorem parseProperty_withPrefix (hflat : ∀ p ∈ pfx, ':' ∉ p)
    (hlen : (withPrefix pfx text).length < zfsMaxproplen)
    (hfits : (propNamespace pfx).length < zfsMaxproplen) (h : pfx.isSome ∨ ':' ∉ text) :
    parseProperty (withPrefix pfx text) = some (propNamespace pfx, text) := by
  rw [parseProperty_short hlen]
  cases pfx with
  | none =>
    have hnone : ':' ∉ text := by simpa using h
    rw [withPrefix, splitFirst_of_not_mem hnone]
    rfl
  | some p =>
    have hconcat : libzeUtilConcat zePropNamespace "." p zfsMaxproplen =
        (0, propNamespace (some p)) := by
      have hshape : zePropNamespace ++ ['.'] ++ p = propNamespace (some p) := by
        simp [propNamespace]
      rw [← hshape] at hfits ⊢
      exact libzeUtilConcat_buf hfits
    rw [withPrefix, splitFirst_append (hflat p rfl)]
    dsimp only
    rw [hconcat]
    rfl

end Parse

section Set
variable {pfx : Option CStr} {name value : CStr} {properties : List (CStr × CStr)}

theorem Argument.namespace_fits (hp : Argument pfx name value) :
    (propNamespace pfx).length < zfsMaxproplen := by
  have hfull := hp.full_fits
  rw [fullName, List.length_append] at hfull
  omega

theorem Argument.get_fits (hp : Argument pfx name value) :
    (withPrefix pfx name).length < zfsMaxproplen := by
  have hset := hp.set_fits
  cases pfx with
  | none =>
    simp only [setText, withPrefix, List.length_append] at hset ⊢
    omega
  | some p =>
    simp only [setText, withPrefix, List.length_append, List.length_cons] at hset ⊢
    omega

theorem Argument.concat (hp : Argument pfx name value) :
    libzeUtilConcat (propNamespace pfx) ":" name zfsMaxproplen = (0, fullName pfx name) := by
  have hshape : propNamespace pfx ++ [':'] ++ name = fullName pfx name := by
    simp [fullName]
  have hfits := hp.full_fits
  rw [← hshape] at hfits ⊢
  exact libzeUtilConcat_buf hfits

theorem libzeAddSetProperty_withPrefix (hp : Argument pfx name value)
    (h : pfx.isSome ∨ ':' ∉ value) (hnew : fullName pfx name ∉ properties.map Prod.fst) :
    libzeAddSetProperty properties (setText pfx name value) =
      (.success, properties ++ [(fullName pfx name, value)]) := by
  have htext : pfx.isSome ∨ ':' ∉ name ++ '=' :: value := by
    apply h.imp_right
    intro hvalue
    simp [hp.name_flat.1, hvalue]
  have hparse : parseProperty (setText pfx name value) = _ :=
    parseProperty_withPrefix (fun p hmem => (hp.pfx_flat p hmem).1) hp.set_fits hp.namespace_fits
      htext
  rw [libzeAddSetProperty, hparse]
  dsimp only
  rw [splitFirst_append hp.name_flat.2]
  dsimp only
  rw [hp.concat]
  dsimp only
  rw [if_neg (by simp), if_neg hnew, put_of_new hnew]

/-- A colon in the value is taken for the end of a prefix, and what is stored is shorter. -/
theorem libzeAddSetProperty_colon (hp : Argument none name value) (h : ':' ∈ value) :
    libzeAddSetProperty [] (setText none name value) ≠
      (.success, [] ++ [(fullName none name, value)]) := by
  intro hset
  obtain ⟨v1, v2, hvalue, hv1⟩ := List.eq_append_cons_of_mem h
  have htext : setText none name value = (name ++ '=' :: v1) ++ ':' :: v2 := by
    simp [setText, withPrefix, hvalue]
  have hbefore : ':' ∉ name ++ '=' :: v1 := by
    simp [hp.name_flat.1, hv1]
  rw [libzeAddSetProperty, parseProperty_short hp.set_fits, htext, splitFirst_append hbefore] at hset
  dsimp only at hset
  by_cases hcode : (libzeUtilConcat zePropNamespace "." (name ++ '=' :: v1) zfsMaxproplen).1 ≠ 0
  · rw [if_pos hcode] at hset
    cases hset
  rw [if_neg hcode] at hset
  dsimp only at hset
  cases hsplit : splitFirst '=' v2 with
  | none =>
    rw [hsplit] at hset
    cases hset
  | some parts =>
    obtain ⟨name', value'⟩ := parts
    rw [hsplit] at hset
    dsimp only at hset
    split at hset
    · cases hset
    split at hset
    · cases hset
    have hstored : value' = value := by
      have hlist := (Prod.mk.inj hset).2
      have hpair := (List.cons.inj hlist).1
      exact (Prod.mk.inj hpair).2
    have hlong : value.length = v1.length + (name'.length + (value'.length + 1) + 1) := by
      rw [hvalue, eq_append_of_splitFirst hsplit]
      simp only [List.length_append, List.length_cons]
    rw [hstored] at hlong
    omega

end Set

section Get
variable {pfx : Option CStr} {name value full : CStr} {host : Host} {beyond : Beyond}
variable {h h' : Handle} {properties pairs found : List (CStr × CStr)} {s t : Sys}

theorem addMatching_eq (full : CStr) (pairs found : List (CStr × CStr)) :
    addMatching full pairs found = (pairs.filter fun e => e.1 = full).foldl put found := by
  rw [addMatching, List.foldl_filter]
  simp only [decide_eq_true_eq]

theorem libzeAddGetProperty_withPrefix (hp : Argument pfx name value) (h : Handle) (s : Sys) :
    libzeAddGetProperty h [] (withPrefix pfx name) s =
      (let found := addMatching (fullName pfx name) h.zeProps []
      (.success, if found = [] then put found (fullName pfx name, "-") else found), s) := by
  have hparse : parseProperty (withPrefix pfx name) = _ :=
    parseProperty_withPrefix (fun p hmem => (hp.pfx_flat p hmem).1) hp.get_fits hp.namespace_fits
      (.inr hp.name_flat.1)
  rw [libzeAddGetProperty, hparse]
  dsimp only
  rw [hp.concat]
  dsimp only
  rw [if_neg (by simp)]
  split <;> rfl

theorem keys_libzeAddGetProperty (hp : Argument pfx name value) (h : Handle) (s : Sys) :
    (libzeAddGetProperty h [] (withPrefix pfx name) s).1.2.map Prod.fst = [fullName pfx name] := by
  rw [libzeAddGetProperty_withPrefix hp]
  dsimp only
  rw [addMatching_eq]
  have hkeys : ∀ e ∈ h.zeProps.filter (fun e => e.1 = fullName pfx name), e.1 = fullName pfx name := by
    intro e he
    simpa using (List.mem_filter.mp he).2
  by_cases hnone : h.zeProps.filter (fun e => e.1 = fullName pfx name) = []
  · rw [hnone, List.foldl_nil, if_pos rfl]
    rfl
  · rw [foldl_put_of_same hkeys (by simp) hnone, if_neg (by simp), List.map_singleton]
    rw [hkeys _ (List.getLast_mem hnone)]

/-! ## Storing and reading back -/

theorem colon_mem_fullName : ':' ∈ fullName pfx name := by
  simp [fullName]

theorem namespace_isPrefixOf : zePropNamespace.isPrefixOf (propNamespace pfx) = true := by
  rw [List.isPrefixOf_iff_prefix]
  cases pfx with
  | none => exact List.prefix_rfl
  | some p => exact List.prefix_append _ _

theorem filterBeProps_keeps (hfull : ∀ e ∈ pairs, e.1 ≠ full)
    (hr : libzeFilterBeProps beyond zePropNamespace pairs found = some properties) :
    properties.filter (fun e => e.1 = full) = found.filter fun e => e.1 = full := by
  induction pairs generalizing found with
  | nil =>
    cases hr
    rfl
  | cons pair rest ih =>
    have hrest := fun e he => hfull e (List.mem_cons_of_mem pair he)
    have hput : (put found pair).filter (fun e => e.1 = full) = found.filter fun e => e.1 = full := by
      have hpair := hfull pair List.mem_cons_self
      rw [put, List.filter_append, List.filter_filter]
      simp only [List.filter_cons, hpair, decide_false, Bool.false_eq_true, if_false,
        List.filter_nil, List.append_nil]
      apply List.filter_congr
      intro e _
      by_cases he : e.1 = full
      · simp [he, Ne.symm hpair]
      · simp [he]
    rw [libzeFilterBeProps] at hr
    split at hr
    · exact ih hrest hr
    · split at hr
      · rw [ih hrest hr]
        split
        · exact hput
        · rfl
      · cases hr

/-- The property that was stored comes first and passes the filter. -/
theorem filterBeProps_stored (hp : Argument pfx name value)
    (hr : libzeFilterBeProps beyond zePropNamespace ((fullName pfx name, value) :: pairs) [] =
      some properties) (hfull : ∀ e ∈ pairs, e.1 ≠ fullName pfx name) :
    properties.filter (fun e => e.1 = fullName pfx name) = [(fullName pfx name, value)] := by
  have hlong : ¬ ((fullName pfx name).length + 1 < zePropNamespace.length + 1 ∧
      beyond.char (fullName pfx name) ≠ '.' ∧ beyond.char (fullName pfx name) ≠ ':') := by
    have hle := (List.isPrefixOf_iff_prefix.mp (@namespace_isPrefixOf pfx)).length_le
    rw [fullName, List.length_append]
    omega
  have hcut : libzeUtilCut (fullName pfx name) zfsMaxproplen ':' = (0, propNamespace pfx) :=
    libzeUtilCut_eq_ok_iff.mpr ⟨hp.full_fits, name, rfl, hp.name_flat.1⟩
  rw [libzeFilterBeProps, if_neg hlong, hcut] at hr
  simp only [namespace_isPrefixOf, if_true] at hr
  rw [filterBeProps_keeps hfull hr]
  simp [put]

/-- A dataset on which the property was set last. -/
def SetLast (d : Dataset) (full value : CStr) : Prop :=
  ∃ rest, d.props = ⟨.other full, value, .localSet⟩ :: rest ∧ ∀ e ∈ rest, e.prop ≠ .other full

theorem setProp_setLast (d : Dataset) : SetLast (d.setProp (.other full) value) full value :=
  ⟨_, rfl, fun e he => by simpa using (List.mem_filter.mp he).2⟩

theorem foldl_setProp_name (ps : List (ZfsProp × CStr)) (d : Dataset) :
    (ps.foldl (fun d p => d.setProp p.1 p.2) d).name = d.name := by
  induction ps generalizing d with
  | nil => rfl
  | cons p ps ih => exact ih (d.setProp p.1 p.2)

theorem setLast_of_libzeSet (hstore : host.propStore (.other full) value = value)
    (hr : libzeSet host h (properties ++ [(full, value)]) s = (.success, t)) :
    ∃ d, t.find h.envRoot = some d ∧ SetLast d full value := by
  unfold libzeSet libzeDatasetSet at hr
  obtain ⟨code, u, hopen, hr⟩ := bind_run hr
  split at hr
  · cases hr
  rename_i hcode
  rw [not_not.mp hcode] at hopen
  obtain ⟨code', v, hcall, hr⟩ := bind_run hr
  split at hr
  · cases hr
  rename_i hcode'
  rw [not_not.mp hcode'] at hcall
  cases hr
  obtain ⟨-, hv⟩ := call_done hcall
  have hmem : h.envRoot ∈ u.names := by
    have hexists := zfsOpen_exists hopen
    rw [(zfsOpen_samePools hopen).names]
    simp only [Sys.datasetExists, decide_eq_true_eq] at hexists
    exact hexists.1
  obtain ⟨d, -, hfind⟩ := find_of_mem hmem
  have hfound := find_mapDataset_self (foldl_setProp_name
    ((((properties ++ [(full, value)]).map fun p => (ZfsProp.other p.1, p.2)).map host.store))) hfind
  subst hv
  refine ⟨_, hfound, ?_⟩
  simp only [List.map_append, List.map_cons, List.map_nil, List.foldl_append, List.foldl_cons,
    List.foldl_nil, Host.store, hstore]
  exact setProp_setLast _

/-- What a dataset has set last is its own property and hides what it inherits. -/
theorem zfsGetUserProps_setLast {d : Dataset} (hcolon : ':' ∈ full) {dataset : CStr}
    (hfind : s.find dataset = some d) (hset : SetLast d full value) :
    ∃ others, zfsGetUserProps beyond s dataset = (full, value) :: others ∧
      ∀ e ∈ others, e.1 ≠ full := by
  obtain ⟨rest, hprops, hrest⟩ := hset
  have hown : ((s.find dataset).elim [] Dataset.props).filterMap userProp =
      (full, value) :: rest.filterMap userProp := by
    rw [hfind, Option.elim_some, hprops, List.filterMap_cons]
    simp only [userProp, hcolon, if_true]
  rw [zfsGetUserProps, hown]
  refine ⟨_, List.cons_append, ?_⟩
  intro e he
  rcases List.mem_append.mp he with he | he
  · obtain ⟨entry, hentry, huser⟩ := List.mem_filterMap.mp he
    have hne := hrest entry hentry
    cases hprop : entry.prop with
    | other name =>
      rw [hprop] at hne
      simp only [userProp, hprop] at huser
      split at huser
      · cases huser
        exact fun heq => hne (congrArg ZfsProp.other heq)
      · cases huser
    | origin | mountpoint | canmount => simp [userProp, hprop] at huser
  · have hout := (List.mem_filter.mp he).2
    intro heq
    simp [heq] at hout

theorem readBack_filter (hp : Argument pfx name value)
    (hstore : host.propStore (.other (fullName pfx name)) value = value)
    (hr : ReadBack host beyond h h' (properties ++ [(fullName pfx name, value)]) s t) :
    h'.zeProps.filter (fun e => e.1 = fullName pfx name) = [(fullName pfx name, value)] := by
  obtain ⟨u, hset, hget⟩ := hr
  obtain ⟨d, hfind, hlast⟩ := setLast_of_libzeSet hstore hset
  unfold libzeBePropsGet libzeDatasetPropsGet at hget
  obtain ⟨code, v, hopen, hget⟩ := bind_run hget
  split at hget
  · cases hget
  rw [run_get_bind] at hget
  rw [← (zfsOpen_samePools hopen).find] at hfind
  obtain ⟨others, hprops, hothers⟩ :=
    @zfsGetUserProps_setLast _ _ beyond _ _ colon_mem_fullName _ hfind hlast
  rw [hprops] at hget
  cases hfilter : libzeFilterBeProps beyond zePropNamespace ((fullName pfx name, value) :: others) []
    with
  | none =>
    rw [hfilter] at hget
    cases hget
  | some filtered =>
    rw [hfilter] at hget
    have hfiltered : filtered = h'.zeProps := (Prod.mk.inj (Prod.mk.inj hget).1).2
    rw [← hfiltered]
    exact filterBeProps_stored hp hfilter hothers

end Get

/-- What was set is got back exactly when the value of a property without a prefix has no colon. -/
theorem setGet_iff {pfx : Option CStr} {name value : CStr} (hp : Argument pfx name value) :
    SetGet pfx name value ↔ pfx.isSome ∨ ':' ∉ value := by
  constructor
  · intro hall
    by_contra hcond
    obtain ⟨hnone, hcolon⟩ := not_or.mp hcond
    obtain rfl : pfx = none := by simpa using hnone
    exact libzeAddSetProperty_colon hp (not_not.mp hcolon) (hall.set [] (by simp))
  · intro hcond
    constructor
    · exact fun properties hnew => libzeAddSetProperty_withPrefix hp hcond hnew
    · exact keys_libzeAddGetProperty hp
    · intro host beyond h h' properties s t hnew hstore hback
      rw [libzeAddSetProperty_withPrefix hp hcond hnew] at hback
      rw [libzeAddGetProperty_withPrefix hp]
      dsimp only
      rw [addMatching_eq, readBack_filter hp hstore hback]
      rfl

theorem efi_argument : Argument (some "systemdboot") "efi" "/efi" where
  pfx_flat := by decide +kernel
  name_flat := by decide +kernel
  set_fits := by decide +kernel
  full_fits := by decide +kernel

theorem setGet_efi : SetGet (some "systemdboot") "efi" "/efi" ↔
    (some ("systemdboot" : CStr)).isSome ∨ ':' ∉ ("/efi" : CStr) :=
  setGet_iff efi_argument

/-- The value `a:b` is cut in two, and behind its colon there is no `=`. -/
theorem not_setGet_colon : Argument none "editor" "a:b" ∧ ¬ SetGet none "editor" "a:b" := by
  have hargument : Argument none "editor" "a:b" :=
    ⟨by decide +kernel, by decide +kernel, by decide +kernel, by decide +kernel⟩
  have hunknown : libzeAddSetProperty [] (setText none "editor" "a:b") = (.unknown, []) := by
    decide +kernel
  refine ⟨hargument, fun hall => ?_⟩
  have hset := hall.set [] (by simp)
  rw [hunknown] at hset
  cases hset

end Zectl.Libze.Property
