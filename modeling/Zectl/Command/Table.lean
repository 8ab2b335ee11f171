import Zectl.Libze.Listing

/-!
# The tables of `zectl list` and `zectl get`

A table is printed in columns that are as wide as their longest value, or with a tab behind every
value for other programs. The tables of `zectl list` pad two of their columns to the width of
the same one.
-/

namespace Zectl.Command.Table

open Zectl.Lib.PathOrder Zectl.Util.CString Zectl.Libze.Listing

/-- `HEADER_SPACING` -/
def headerSpacing : Nat := 2

/-- `printf` with `%-*s`. -/
def leftJustified (width : Nat) (text : CStr) : CStr := text.rightpad width ' '

/-- `set_column_width` -/
def setColumnWidth (widthColumn : Nat) (stringProp : CStr) : Nat :=
  if widthColumn < stringProp.length then stringProp.length else widthColumn

/-- A printed value with what stands behind it. -/
def cell (width : Nat) (tabSuffix text : CStr) : CStr := leftJustified width text ++ tabSuffix

/-- A line of a table. -/
def tableLine (cells : List CStr) : CStr := cells.flatten ++ ['\n']

/-! ## Boot environments -/

/-- `list_value_widths` without the column that is never printed. -/
structure ListValueWidths where
  name : Nat := 0
  active : Nat := 0
  mountpoint : Nat := 0
  creation : Nat := 0

/-- `compute_column_widths`, which its caller only uses for a table without tabs. -/
def computeColumnWidths (widths : ListValueWidths) (beProps : BeEntry) : ListValueWidths where
  name := setColumnWidth widths.name beProps.name
  active := widths.active
  mountpoint := setColumnWidth widths.mountpoint beProps.mountpoint
  creation := setColumnWidth widths.creation beProps.creation

/-- The widths of the header alone. -/
def headerWidths : ListValueWidths where
  name := ("Name" : CStr).length
  active := ("Active" : CStr).length
  mountpoint := ("Mountpoint" : CStr).length
  creation := ("Creation" : CStr).length

/-- The widths `print_bes` prints with. -/
def listWidths (bootenvs : List BeEntry) (tabDelimited : Bool) : ListValueWidths :=
  if tabDelimited then {} else
  let widths := bootenvs.foldl computeColumnWidths headerWidths
  { name := widths.name + headerSpacing
    active := widths.active + headerSpacing
    mountpoint := widths.mountpoint + headerSpacing
    creation := widths.creation + headerSpacing }

def headerCells (widths : ListValueWidths) : List CStr :=
  [cell widths.name [] "Name", cell widths.active [] "Active",
    cell widths.mountpoint [] "Mountpoint", cell widths.creation [] "Creation"]

/-- `active_buff` -/
def activeBuff (beProps : BeEntry) : CStr :=
  (if beProps.active then "N".toList else []) ++ if beProps.nextboot then "R".toList else []

/-- The values of an environment. The name has no slash, so `libze_boot_env_name` fails and leaves
all of it in the buffer. The mount point is printed in the width of the creation time. -/
def beCells (widths : ListValueWidths) (tabSuffix : CStr) (beProps : BeEntry) : List CStr :=
  [cell widths.name tabSuffix (libzeBootEnvName beProps.name zfsMaxDatasetNameLen).2,
    cell widths.active tabSuffix (activeBuff beProps),
    cell widths.creation tabSuffix beProps.mountpoint,
    cell widths.creation tabSuffix beProps.creation]

/-- `print_bes` -/
def printBes (bootenvs : List BeEntry) (tabDelimited : Bool) : CStr :=
  let widths := listWidths bootenvs tabDelimited
  let tabSuffix : CStr := if tabDelimited then "\t" else ""
  (if tabDelimited then [] else tableLine (headerCells widths)) ++
    bootenvs.flatMap fun beProps => tableLine (beCells widths tabSuffix beProps)

/-! ## Properties -/

/-- `get_value_widths` -/
structure GetValueWidths where
  property : Nat := 0
  value : Nat := 0

/-- The widths after a pair has been measured. -/
def measureProperty (widths : GetValueWidths) (pair : CStr × CStr) : GetValueWidths where
  property := setColumnWidth widths.property pair.1
  value := setColumnWidth widths.value pair.2

/-- The widths of the header alone. -/
def propertyHeaderWidths : GetValueWidths where
  property := ("PROPERTY" : CStr).length
  value := ("VALUE" : CStr).length

/-- The widths `print_properties` prints with. -/
def getWidths (properties : List (CStr × CStr)) (tabDelimited : Bool) : GetValueWidths :=
  if tabDelimited then {} else
  let widths := properties.foldl measureProperty propertyHeaderWidths
  { property := widths.property + headerSpacing, value := widths.value + headerSpacing }

def propertyCells (widths : GetValueWidths) (tabSuffix : CStr) (pair : CStr × CStr) : List CStr :=
  [cell widths.property tabSuffix pair.1, cell widths.value tabSuffix pair.2]

/-- `print_properties` -/
def printProperties (properties : List (CStr × CStr)) (tabDelimited : Bool) : CStr :=
  let widths := getWidths properties tabDelimited
  let tabSuffix : CStr := if tabDelimited then "\t" else ""
  (if tabDelimited then [] else tableLine (propertyCells widths [] ("PROPERTY", "VALUE"))) ++
    properties.flatMap fun pair => tableLine (propertyCells widths tabSuffix pair)

/-! ## Tables for other programs -/

/-- What a program reads in a table with tabs: the values of each line. -/
def readTable (text : CStr) : List (List CStr) :=
  (text.splitOn '\n').dropLast.map fun line => (line.splitOn '\t').dropLast

/-- The values a table with tabs can hold. -/
def Tabular (text : CStr) : Prop := '\t' ∉ text ∧ '\n' ∉ text

/-- The values in a line of `zectl list`. -/
def beValues (beProps : BeEntry) : List CStr :=
  [(libzeBootEnvName beProps.name zfsMaxDatasetNameLen).2, activeBuff beProps, beProps.mountpoint,
    beProps.creation]

section Read
variable {c : Char} {texts values : List CStr} {rows : List (List CStr)}

theorem dropLast_splitOn (h : ∀ text ∈ texts, c ∉ text) :
    ((texts.flatMap fun text => text ++ [c]).splitOn c).dropLast = texts := by
  have hjoin : (texts.flatMap fun text => text ++ [c]) = [c].intercalate (texts ++ [[]]) := by
    induction texts with
    | nil => rfl
    | cons text rest ih =>
      rw [List.flatMap_cons, ih fun t ht => h t (List.mem_cons_of_mem text ht)]
      cases rest with
      | nil => simp [List.intercalate]
      | cons next rest => simp [List.intercalate]
  rw [hjoin, List.splitOn_intercalate c _ (by simp), List.dropLast_concat]
  intro text htext
  obtain htext | htext := List.mem_append.mp htext
  · exact h text htext
  · rw [List.mem_singleton.mp htext]
    exact List.not_mem_nil

theorem readTable_lines (h : ∀ values ∈ rows, ∀ text ∈ values, Tabular text) :
    readTable (rows.flatMap fun values =>
      tableLine (values.map fun text => text ++ ['\t'])) = rows := by
  have hlines : (rows.flatMap fun values => tableLine (values.map fun text => text ++ ['\t'])) =
      (rows.map fun values => values.flatMap fun text => text ++ ['\t']).flatMap
        fun line => line ++ ['\n'] := by
    rw [List.flatMap_map]
    rfl
  have hnewline : ∀ line ∈ rows.map fun values => values.flatMap fun text => text ++ ['\t'],
      '\n' ∉ line := by
    intro line hline
    obtain ⟨values, hvalues, rfl⟩ := List.mem_map.mp hline
    intro hmem
    obtain ⟨text, htext, hmem⟩ := List.mem_flatMap.mp hmem
    obtain hmem | hmem := List.mem_append.mp hmem
    · exact (h values hvalues text htext).2 hmem
    · exact absurd (List.mem_singleton.mp hmem) (by decide)
  rw [readTable, hlines, dropLast_splitOn hnewline, List.map_map]
  conv_rhs => rw [← List.map_id rows]
  apply List.map_congr_left
  intro values hvalues
  exact dropLast_splitOn fun text htext => (h values hvalues text htext).1

end Read

/-- The last part of a name holds no other characters than the name. -/
theorem libzeBootEnvName_subset {dataset : CStr} {buflen : Nat} :
    (libzeBootEnvName dataset buflen).2 ⊆ dataset := by
  unfold libzeBootEnvName
  dsimp only [strlcpy]
  have htake := List.take_subset (buflen - 1) dataset
  split
  · exact htake
  · split
    · exact htake
    · rename_i before after hsplit
      obtain ⟨hpath, -⟩ := eq_append_of_splitLast hsplit
      have hafter : after.take (buflen - 1) ⊆ dataset := by
        intro c hc
        apply htake
        rw [hpath]
        exact List.mem_append_right _ (List.mem_cons_of_mem _ (List.take_subset _ _ hc))
      split
      · exact hafter
      · exact hafter

theorem leftJustified_zero (text : CStr) : leftJustified 0 text = text := by
  simp [leftJustified, List.rightpad]

theorem tabular_activeBuff (beProps : BeEntry) : Tabular (activeBuff beProps) := by
  unfold Tabular activeBuff
  cases beProps.active <;> cases beProps.nextboot <;> decide

/-- A name without a slash stays in the buffer. -/
theorem libzeBootEnvName_bare {name : CStr} {buflen : Nat} (hslash : '/' ∉ name)
    (hfit : name.length < buflen) : (libzeBootEnvName name buflen).2 = name := by
  have hnone : splitLast '/' name = none := splitLast_eq_none.mpr hslash
  unfold libzeBootEnvName
  dsimp only [strlcpy]
  rw [if_neg (Nat.not_le.mpr hfit), take_of_fits hfit, hnone]

/-- A program reads back every environment of `zectl list -H`, and in the first value the name
of a boot environment. -/
theorem readTable_printBes (bootenvs : List BeEntry)
    (h : ∀ be ∈ bootenvs, Tabular be.name ∧ Tabular be.mountpoint ∧ Tabular be.creation) :
    readTable (printBes bootenvs true) = bootenvs.map beValues ∧
      ∀ be ∈ bootenvs, '/' ∉ be.name → be.name.length < zfsMaxDatasetNameLen →
        beValues be = [be.name, activeBuff be, be.mountpoint, be.creation] := by
  have hlines : printBes bootenvs true = (bootenvs.map beValues).flatMap fun values =>
      tableLine (values.map fun text => text ++ ['\t']) := by
    rw [List.flatMap_map]
    rw [printBes, if_pos rfl, if_pos rfl, List.nil_append]
    simp [beCells, beValues, cell, listWidths, leftJustified_zero]
  constructor
  · rw [hlines]
    apply readTable_lines
    intro values hvalues text htext
    obtain ⟨be, hbe, rfl⟩ := List.mem_map.mp hvalues
    obtain ⟨hname, hmountpoint, hcreation⟩ := h be hbe
    simp only [beValues, List.mem_cons, List.not_mem_nil, or_false] at htext
    obtain rfl | rfl | rfl | rfl := htext
    · exact ⟨fun hmem => hname.1 (libzeBootEnvName_subset hmem),
        fun hmem => hname.2 (libzeBootEnvName_subset hmem)⟩
    · exact tabular_activeBuff be
    · exact hmountpoint
    · exact hcreation
  · intro be _ hslash hfit
    rw [beValues, libzeBootEnvName_bare hslash hfit]

theorem readTable_printBes_sample :
    readTable (printBes [⟨"rpool/ROOT/a", "a", "/", "2026-01-01 10:00", true, true⟩] true) =
      [[("a" : CStr), ("NR" : CStr), ("/" : CStr), ("2026-01-01 10:00" : CStr)]] := by
  have htabular : ∀ be ∈ [(⟨"rpool/ROOT/a", "a", "/", "2026-01-01 10:00", true, true⟩ : BeEntry)],
      Tabular be.name ∧ Tabular be.mountpoint ∧ Tabular be.creation := by
    intro be hbe
    rw [List.mem_singleton.mp hbe]
    unfold Tabular
    decide +kernel
  obtain ⟨hread, hvalues⟩ := readTable_printBes _ htabular
  rw [hread, List.map_singleton,
    hvalues _ (List.mem_singleton_self _) (by decide +kernel) (by decide +kernel)]
  rfl

/-- A program reads back every property of `zectl get -H`. -/
theorem readTable_printProperties (properties : List (CStr × CStr))
    (h : ∀ pair ∈ properties, Tabular pair.1 ∧ Tabular pair.2) :
    readTable (printProperties properties true) = properties.map fun pair => [pair.1, pair.2] := by
  have hlines : printProperties properties true =
      (properties.map fun pair => [pair.1, pair.2]).flatMap fun values =>
        tableLine (values.map fun text => text ++ ['\t']) := by
    rw [List.flatMap_map]
    rw [printProperties, if_pos rfl, if_pos rfl, List.nil_append]
    simp [propertyCells, cell, getWidths, leftJustified_zero]
  rw [hlines]
  apply readTable_lines
  intro values hvalues text htext
  obtain ⟨pair, hpair, rfl⟩ := List.mem_map.mp hvalues
  simp only [List.mem_cons, List.not_mem_nil, or_false] at htext
  obtain rfl | rfl := htext
  · exact (h pair hpair).1
  · exact (h pair hpair).2

/-! ## Columns -/

/-- Where a column starts in a line. -/
def columnStart (cells : List CStr) (column : Nat) : Nat := (cells.take column).flatten.length

theorem length_cell (width : Nat) (text : CStr) :
    (cell width [] text).length = max width text.length := by
  simp [cell, leftJustified, List.rightpad, List.length_append]
  omega

theorem length_libzeBootEnvName (dataset : CStr) (buflen : Nat) :
    (libzeBootEnvName dataset buflen).2.length ≤ dataset.length := by
  unfold libzeBootEnvName
  dsimp only [strlcpy]
  have htake : (dataset.take (buflen - 1)).length ≤ dataset.length := by
    rw [List.length_take]
    omega
  split
  · exact htake
  · split
    · exact htake
    · rename_i before after hsplit
      obtain ⟨hpath, -⟩ := eq_append_of_splitLast hsplit
      have hafter : (after.take (buflen - 1)).length ≤ dataset.length := by
        have hlen := congrArg List.length hpath
        rw [List.length_append, List.length_cons] at hlen
        rw [List.length_take]
        omega
      split
      · exact hafter
      · exact hafter

/-- A column that only grows is at last as wide as all that it has been measured with. -/
theorem le_foldl_width {α β : Type} (step : β → α → β) (width : β → Nat)
    (column : α → CStr) (hstep : ∀ w a, width (step w a) = setColumnWidth (width w) (column a))
    (rows : List α) (start : β) : width start ≤ width (rows.foldl step start) ∧
      ∀ a ∈ rows, (column a).length ≤ width (rows.foldl step start) := by
  induction rows generalizing start with
  | nil => exact ⟨le_refl _, by simp⟩
  | cons row rest ih =>
    obtain ⟨hstart, hrest⟩ := ih (step start row)
    have hgrow := hstep start row
    have hmax : setColumnWidth (width start) (column row) =
        max (width start) (column row).length := by
      unfold setColumnWidth
      split <;> omega
    rw [List.foldl_cons]
    refine ⟨by omega, fun a ha => ?_⟩
    obtain rfl | ha := List.mem_cons.mp ha
    · omega
    · exact hrest a ha

/-- A column of `zectl list` is wider than its header and all of its values. -/
theorem lt_listWidths (bootenvs : List BeEntry) (width : ListValueWidths → Nat)
    (column : BeEntry → CStr)
    (hstep : ∀ w be, width (computeColumnWidths w be) = setColumnWidth (width w) (column be))
    (hadd : ∀ bes, width (listWidths bes false) =
      width (bes.foldl computeColumnWidths headerWidths) + headerSpacing) :
    width headerWidths < width (listWidths bootenvs false) ∧
      ∀ be ∈ bootenvs, (column be).length < width (listWidths bootenvs false) := by
  obtain ⟨hheader, hvalues⟩ :=
    le_foldl_width computeColumnWidths width column hstep bootenvs headerWidths
  have hspace : 0 < headerSpacing := by decide
  rw [hadd]
  exact ⟨by omega, fun be hbe => by have := hvalues be hbe; omega⟩

theorem length_activeBuff (beProps : BeEntry) : (activeBuff beProps).length ≤ 2 := by
  unfold activeBuff
  cases beProps.active <;> cases beProps.nextboot <;> decide

theorem listWidths_active (bootenvs : List BeEntry) :
    (listWidths bootenvs false).active = headerWidths.active + headerSpacing := by
  have hfold : ∀ (rows : List BeEntry) (start : ListValueWidths),
      (rows.foldl computeColumnWidths start).active = start.active := by
    intro rows
    induction rows with
    | nil => exact fun _ => rfl
    | cons row rest ih => exact fun start => ih (computeColumnWidths start row)
  show (bootenvs.foldl computeColumnWidths headerWidths).active + headerSpacing = _
  rw [hfold]

/-- The first three columns of `zectl list` start below their headers. The last one does
exactly when the widths of the mount points and of the creation times agree, since the mount
points are padded to the latter. -/
theorem columnStart_printBes (bootenvs : List BeEntry) :
    let widths := listWidths bootenvs false
    printBes bootenvs false = tableLine (headerCells widths) ++
        bootenvs.flatMap (fun be => tableLine (beCells widths [] be)) ∧
      ∀ be ∈ bootenvs,
        (∀ column ≤ 2,
          columnStart (beCells widths [] be) column = columnStart (headerCells widths) column) ∧
        (columnStart (beCells widths [] be) 3 = columnStart (headerCells widths) 3 ↔
          widths.creation = widths.mountpoint) := by
  refine ⟨rfl, fun be hbe => ?_⟩
  obtain ⟨hnameHeader, hname⟩ := lt_listWidths bootenvs ListValueWidths.name BeEntry.name
    (fun _ _ => rfl) (fun _ => rfl)
  obtain ⟨hmountHeader, hmount⟩ := lt_listWidths bootenvs ListValueWidths.mountpoint
    BeEntry.mountpoint (fun _ _ => rfl) (fun _ => rfl)
  have hbeName := length_libzeBootEnvName be.name zfsMaxDatasetNameLen
  have hactive := listWidths_active bootenvs
  have hbeActive := length_activeBuff be
  have hheader : headerWidths.active = 6 := by decide
  have hspace : headerSpacing = 2 := rfl
  have hnameCell : max (listWidths bootenvs false).name ("Name" : CStr).length =
      max (listWidths bootenvs false).name
        (libzeBootEnvName be.name zfsMaxDatasetNameLen).2.length := by
    have hlong := hname be hbe
    have hheaderName : headerWidths.name = ("Name" : CStr).length := rfl
    omega
  have hactiveCell : max (listWidths bootenvs false).active ("Active" : CStr).length =
      max (listWidths bootenvs false).active (activeBuff be).length := by
    have hheaderActive : headerWidths.active = ("Active" : CStr).length := rfl
    omega
  constructor
  · intro column hcolumn
    have hcases : column = 0 ∨ column = 1 ∨ column = 2 := by omega
    obtain rfl | rfl | rfl := hcases
    · rfl
    · simp only [columnStart, beCells, headerCells, List.take_succ_cons, List.take_zero,
        List.flatten_cons, List.flatten_nil, List.append_nil, length_cell]
      omega
    · simp only [columnStart, beCells, headerCells, List.take_succ_cons, List.take_zero,
        List.flatten_cons, List.flatten_nil, List.append_nil, List.length_append, length_cell]
      omega
  · have hlong := hmount be hbe
    have hheaderMount : headerWidths.mountpoint = ("Mountpoint" : CStr).length := rfl
    simp only [columnStart, beCells, headerCells, List.take_succ_cons, List.take_zero,
      List.flatten_cons, List.flatten_nil, List.append_nil, List.length_append, length_cell]
    omega

/-- The values of `zectl get` start below their header. -/
theorem columnStart_printProperties (properties : List (CStr × CStr)) :
    let widths := getWidths properties false
    printProperties properties false = tableLine (propertyCells widths [] ("PROPERTY", "VALUE")) ++
        properties.flatMap (fun pair => tableLine (propertyCells widths [] pair)) ∧
      ∀ pair ∈ properties, columnStart (propertyCells widths [] pair) 1 =
        columnStart (propertyCells widths [] ("PROPERTY", "VALUE")) 1 := by
  refine ⟨rfl, fun pair hpair => ?_⟩
  obtain ⟨hheader, hvalues⟩ := le_foldl_width measureProperty GetValueWidths.property Prod.fst
    (fun _ _ => rfl) properties propertyHeaderWidths
  have hlong := hvalues pair hpair
  have hwidth : (getWidths properties false).property =
      (properties.foldl measureProperty propertyHeaderWidths).property + headerSpacing := rfl
  have hheaderWidth : propertyHeaderWidths.property = ("PROPERTY" : CStr).length := rfl
  simp only [columnStart, propertyCells, List.take_succ_cons, List.take_zero,
    List.flatten_cons, List.flatten_nil, List.append_nil, length_cell]
  omega

end Zectl.Command.Table
