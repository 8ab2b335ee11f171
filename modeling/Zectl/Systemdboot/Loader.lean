import Zectl.Systemdboot.LineBuffer

/-!
# The default entry of `loader.conf`

After an activation the line that names the default boot entry is rewritten. The second
character class of the expression reads a backslash, a `t` and a blank, not a tab.
-/

namespace Zectl.Systemdboot.Loader

open Zectl.Lib.StateRun Zectl.Lib.Lines Zectl.Lib.BasicRegex Zectl.Util.CString Zectl.Util.Files
open Zectl.Util.Replace Zectl.Zfs.System Zectl.Zfs.Steps Zectl.Libze.Init
open Zectl.Systemdboot.ReplaceMatched
open Zectl.Systemdboot.LineBuffer (Opened)

/-- `SYSTEMDBOOT_ENTRY_PREFIX` -/
def systemdbootEntryPrefix : CStr := "org.zectl"

def loaderPattern : CStr := "\\(^[\t ]*default[\\t ]*\\)\\(.*\\)"

/-- `form_loader_regex` -/
def formLoaderRegex : Except LibzeError Bre :=
  match regcomp loaderPattern with
  | none => .error .unknown
  | some re => .ok re

/-- The entry of a boot environment. -/
def entryName (beName : CStr) : CStr := format [systemdbootEntryPrefix, "-", beName, ".conf"]

/-- `get_loader_line_from_regex`, which reports a name that is too long as a success. -/
def getLoaderLineFromRegex (beName : CStr) : LineReplaceFn := fun line replaceLineBuf => do
  match formLoaderRegex with
  | .error err => return (← libzeErrorSet err "Failed to match loader regex.\n", replaceLineBuf)
  | .ok re =>
    if libzeMaxPathLen ≤ (format ["\\1", entryName beName, "\n"]).length then
      return (← libzeErrorSet .success "Exceeded max path length for regex buffer.\n",
        replaceLineBuf)
    rewriteLine re (format ["\\1", entryName beName, "\n"]) line replaceLineBuf

/-- `update_loader_default` -/
def updateLoaderDefault (host : Host) (h : Handle) (loaderPath beName : CStr) :
    Libze LibzeError := do
  if (libzeBootEnvName h.envActivatedPath zfsMaxDatasetNameLen).1 ≠ 0 then
    return ← libzeErrorSet .maxpathlen "Bootfs exceeds max path length.\n"
  updateFile host loaderPath "Backup loader.conf exceeds max path length.\n" "Failed to close fd"
    (getLoaderLineFromRegex beName)

/-! ## What the expression matches -/

def isBlank (c : Char) : Bool := c = ' ' ∨ c = '\t'

/-- What the second character class holds. -/
def inClass (c : Char) : Bool := c = '\\' ∨ c = 't' ∨ c = ' '

/-- The blanks and the word `default` at the start of a line, and what is behind them. -/
def afterDefault (line : CStr) : Option (CStr × CStr) :=
  let behind := line.dropWhile isBlank
  if ("default" : CStr).isPrefixOf behind then
    some (line.takeWhile isBlank ++ ("default" : CStr), behind.drop 7)
  else none

def blanks : Sym := .set false [.char '\t', .char ' ']

def separators : Sym := .set false [.char '\\', .char 't', .char ' ']

def loaderHead : Bre :=
  .seq .bol (.seq (.rep (.sym blanks) 0 none)
    (literal ("default" : CStr) (.seq (.rep (.sym separators) 0 none) .empty)))

def loaderRe : Bre :=
  .seq (.group 1 loaderHead) (.seq (.group 2 (.seq (.rep (.sym .any) 0 none) .empty)) .empty)

theorem regcomp_loaderPattern : regcomp loaderPattern = some loaderRe := by decide +kernel

section Regex
variable {line : CStr} {i : Nat} {g : Groups}

theorem blanks_has : blanks.has = isBlank := by
  funext c
  simp [blanks, Sym.has, Item.has, isBlank, Bool.or_comm]

theorem separators_has : separators.has = inClass := by
  funext c
  simp [separators, Sym.has, Item.has, inClass]

theorem drop_length_takeWhile (p : Char → Bool) (l : CStr) :
    l.drop (l.takeWhile p).length = l.dropWhile p := by
  have hdrop := congrArg (List.drop (l.takeWhile p).length)
    (List.takeWhile_append_dropWhile (p := p) (l := l))
  rw [List.drop_left] at hdrop
  exact hdrop.symm

theorem ends_loaderHead : loaderHead.ends line i g =
    if i = 0 then
      match afterDefault line with
      | none => []
      | some (head, rest) => spans head.length (rest.takeWhile inClass).length g
    else [] := by
  have hfail : ∀ (r : Bre) (j : Nat) (c : Char) (g : Groups), (line)[j]? = some c → blanks.has c = true →
      (literal ("default" : CStr) r).ends line j g = [] := by
    intro r j c g hc hblank
    rw [ends_literal, if_neg]
    intro hpre
    obtain ⟨hlt, rfl⟩ := List.getElem?_eq_some_iff.mp hc
    rw [List.drop_eq_getElem_cons hlt] at hpre
    have hd : 'd' = (line)[j] := by
      have hcons : (('d' :: "efault".toList).isPrefixOf ((line)[j] :: line.drop (j + 1))) = true :=
        hpre
      simp only [List.isPrefixOf_cons_cons, Bool.and_eq_true, beq_iff_eq] at hcons
      exact hcons.1
    rw [← hd] at hblank
    exact absurd hblank (by decide)
  have hrun : run blanks line 0 = (line.takeWhile isBlank).length := by
    rw [run, List.drop_zero, blanks_has]
  rw [loaderHead, ends_seq_bol]
  by_cases hi : i = 0
  · subst hi
    rw [if_pos rfl, if_pos rfl, ends_seq_star_sym (hfail _), ends_literal, ends_seq_empty,
      ends_star_sym, hrun, Nat.zero_add, drop_length_takeWhile]
    unfold afterDefault
    by_cases hword : ("default" : CStr).isPrefixOf (line.dropWhile isBlank)
    · have hclass : run separators line ((line.takeWhile isBlank).length + 7) =
          (((line.dropWhile isBlank).drop 7).takeWhile inClass).length := by
        rw [run, separators_has, ← List.drop_drop, drop_length_takeWhile]
      simp only [if_pos hword, List.length_append]
      exact congrArg (spans _ · g) hclass
    · simp only [if_neg hword]
  · rw [if_neg hi, if_neg hi]

/-- What is split off is blanks and the word. -/
theorem afterDefault_eq_some_iff {head rest : CStr} : afterDefault line = some (head, rest) ↔
    ∃ before, (∀ c ∈ before, isBlank c = true) ∧ head = before ++ ("default" : CStr) ∧
      line = head ++ rest := by
  constructor
  · intro h
    unfold afterDefault at h
    dsimp only at h
    split at h
    · rename_i hword
      obtain ⟨behind, hbehind⟩ := List.isPrefixOf_iff_prefix.mp hword
      cases h
      refine ⟨_, fun c hc => List.mem_takeWhile_imp hc, rfl, ?_⟩
      have hdrop : (("default" : CStr) ++ behind).drop 7 = behind := List.drop_left' (by decide)
      rw [← hbehind, List.append_assoc, hdrop, hbehind, List.takeWhile_append_dropWhile]
    · cases h
  · rintro ⟨before, hblank, rfl, rfl⟩
    have hword : ("default" : CStr) = 'd' :: ("efault" : CStr) := by decide +kernel
    have htake : (("default" : CStr) ++ rest).takeWhile isBlank = [] := by
      rw [hword, List.cons_append, List.takeWhile_cons_of_neg (by decide)]
    have hdropWhile : (("default" : CStr) ++ rest).dropWhile isBlank = ("default" : CStr) ++ rest := by
      rw [hword, List.cons_append, List.dropWhile_cons_of_neg (by decide)]
    have hdrop : (("default" : CStr) ++ rest).drop 7 = rest := List.drop_left' (by decide)
    unfold afterDefault
    dsimp only
    rw [List.append_assoc, List.dropWhile_append_of_pos hblank, List.takeWhile_append_of_pos hblank,
      htake, hdropWhile, hdrop, List.append_nil]
    exact if_pos (List.isPrefixOf_iff_prefix.mpr (List.prefix_append _ _))

theorem afterDefault_eq_some {head rest : CStr} (h : afterDefault line = some (head, rest)) :
    line = head ++ rest ∧ 7 ≤ head.length := by
  obtain ⟨before, -, rfl, hline⟩ := afterDefault_eq_some_iff.mp h
  exact ⟨hline, by simp⟩

def loaderTail : Bre := .seq (.group 2 (.seq (.rep (.sym .any) 0 none) .empty)) .empty

theorem ends_loaderTail {j : Nat} : loaderTail.ends line j g =
    (spans j (line.length - j) g).map fun e => (e.1, (2, j, e.1) :: e.2) := by
  have hgroup := @ends_group_star_sym line j g .any 2
  rw [run_any, Bre.ends] at hgroup
  rw [loaderTail, ends_seq_empty, Bre.ends, ends_seq_empty]
  exact hgroup

/-- The first group reaches to the first character that the class does not hold. -/
theorem regexec_loaderRe (line : CStr) : regexec loaderRe line =
    (afterDefault line).map fun p =>
      ⟨0, line.length, [(2, p.1.length + (p.2.takeWhile inClass).length, line.length),
        (1, 0, p.1.length + (p.2.takeWhile inClass).length)]⟩ := by
  have hends : ∀ i, loaderRe.ends line i [] =
      ((longestFirst (loaderHead.ends line i [])).map fun e => (e.1, (1, i, e.1) :: e.2)).flatMap
        fun e => loaderTail.ends line e.1 e.2 := fun i => rfl
  cases hafter : afterDefault line with
  | none =>
    refine regexec_eq_none fun i => ?_
    rw [hends, ends_loaderHead, hafter, ite_self]
    rfl
  | some p =>
    obtain ⟨head, rest⟩ := p
    obtain ⟨hline, -⟩ := afterDefault_eq_some hafter
    have hle : head.length + (rest.takeWhile inClass).length ≤ line.length := by
      have hclass := (List.takeWhile_sublist (p := inClass) (l := rest)).length_le
      rw [hline, List.length_append]
      omega
    have hbound : ∀ e ∈ spans head.length (rest.takeWhile inClass).length [],
        ∀ f ∈ loaderTail.ends line e.1 ((1, 0, e.1) :: e.2), f.1 ≤ line.length := by
      intro e he f hf
      rw [ends_loaderTail] at hf
      obtain ⟨f', hf', rfl⟩ := List.mem_map.mp hf
      have hstart := le_of_mem_spans he
      have hstop := le_of_mem_spans hf'
      dsimp only
      omega
    have hzero : loaderRe.ends line 0 [] =
        (spans head.length (rest.takeWhile inClass).length []).flatMap
          fun e => loaderTail.ends line e.1 ((1, 0, e.1) :: e.2) := by
      rw [hends, ends_loaderHead, if_pos rfl, hafter, longestFirst_eq_self (pairwise_spans _ _ _),
        List.flatMap_map]
    obtain ⟨more, hmore, -⟩ := spans_eq_cons head.length (rest.takeWhile inClass).length []
    obtain ⟨more', hmore', -⟩ := spans_eq_cons (head.length + (rest.takeWhile inClass).length)
      (line.length - (head.length + (rest.takeWhile inClass).length))
      [(1, 0, head.length + (rest.takeWhile inClass).length)]
    have hfirst := hzero
    rw [hmore, List.flatMap_cons, ends_loaderTail, hmore', List.map_cons, List.cons_append,
      Nat.add_sub_cancel' hle] at hfirst
    refine regexec_of_zero hfirst fun f hf => ?_
    have hmem : f ∈ loaderRe.ends line 0 [] := hfirst ▸ List.mem_cons_of_mem _ hf
    rw [hzero] at hmem
    obtain ⟨e, he, hf⟩ := List.mem_flatMap.mp hmem
    exact hbound e he f hf

end Regex

/-! ## What is written for a line -/

/-- The line that replaces one with `default` at its start. -/
def newLine (beName head rest : CStr) : CStr :=
  head ++ rest.takeWhile inClass ++ (entryName beName ++ ("\n" : CStr))

/-- What the callback leaves for a line, unless it fails. -/
def rewritten (beName line : CStr) : Option CStr :=
  match afterDefault (cString line) with
  | none => some (cString line)
  | some (head, rest) =>
    if (newLine beName head rest).length < libzeMaxPathLen then some (newLine beName head rest)
    else none

/-- The name is short enough for the buffer of the template. -/
def NameFits (beName : CStr) : Prop :=
  (format ["\\1", entryName beName, "\n"]).length < libzeMaxPathLen

/-- A file whose lines go into the line buffer. -/
def Fits (content : CStr) : Prop := ∀ line ∈ lines '\n' content, line.length < libzeMaxPathLen

section Line
variable {host : Host} {beName line buf : CStr} {s : Sys}

theorem formLoaderRegex_eq : formLoaderRegex = .ok loaderRe := by
  rw [formLoaderRegex, regcomp_loaderPattern]

theorem getLoaderLineFromRegex_issues {may : Call → Prop} (line buf : CStr) :
    Issues host may (getLoaderLineFromRegex beName line buf) := by
  unfold getLoaderLineFromRegex
  rw [formLoaderRegex_eq]
  refine moves_ite (fun _ => ?_) fun _ => rewriteLine_issues _ _ _ _
  exact moves_bind (issues_errorSet _ _) fun _ => moves_pure _

theorem cString_length (line : CStr) : (cString line).length ≤ line.length :=
  (List.takeWhile_sublist _).length_le

theorem entryName_eq (beName : CStr) :
    entryName beName = systemdbootEntryPrefix ++ ("-" ++ (beName ++ ".conf") : CStr) := by
  simp [entryName, format]

theorem entryName_cons (beName : CStr) : ∃ rest, entryName beName = 'o' :: rest := by
  have hpre : systemdbootEntryPrefix = 'o' :: ("rg.zectl" : CStr) := by decide +kernel
  exact ⟨_, by rw [entryName_eq, hpre, List.cons_append]⟩

/-- A symbol of the entry that is not in the words around the name is in the name. -/
theorem not_mem_entryName {c : Char} (hname : c ∉ beName)
    (hwords : c ∉ systemdbootEntryPrefix ++ ("-.conf" : CStr)) : c ∉ entryName beName := by
  have hsplit : ("-.conf" : CStr) = ("-" : CStr) ++ (".conf" : CStr) := by decide +kernel
  rw [hsplit] at hwords
  rw [entryName_eq]
  simp only [List.mem_append, not_or] at hwords ⊢
  exact ⟨hwords.1, hwords.2.1, hname, hwords.2.2⟩

/-- The template of the callback in the loop over the output. -/
theorem libzeUtilRegexSubexprReplace_loader {input head rest : CStr} (hname : '\\' ∉ beName)
    (hfits : NameFits beName) (hafter : afterDefault input = some (head, rest)) :
    libzeUtilRegexSubexprReplace loaderRe libzeMaxPathLen
        (format ["\\1", entryName beName, "\n"]) input libzeMaxPathLen =
      some (if (newLine beName head rest).length < libzeMaxPathLen then
          (.success, newLine beName head rest)
        else (.maxpathlen, format ["\\1", entryName beName, "\n"])) := by
  obtain ⟨hinput, hhead⟩ := afterDefault_eq_some hafter
  have hclass : (rest.takeWhile inClass).length ≤ rest.length :=
    (List.takeWhile_sublist _).length_le
  have htemplate : format ["\\1", entryName beName, "\n"] =
      '\\' :: '1' :: (entryName beName ++ ("\n" : CStr)) := by simp [format]
  have hplain : '\\' ∉ entryName beName ++ ("\n" : CStr) := by
    rw [List.mem_append, not_or]
    exact ⟨not_mem_entryName hname (by decide +kernel), by decide +kernel⟩
  have hdigit : ∀ d ∈ (entryName beName ++ ("\n" : CStr)).head?, ¬ ('0' < d ∧ d ≤ '9') := by
    obtain ⟨entry, hentry⟩ := entryName_cons beName
    intro d hd
    rw [hentry] at hd
    obtain rfl : 'o' = d := Option.some.inj hd
    decide
  have hgroup : Match.group ⟨0, input.length,
      [(2, head.length + (rest.takeWhile inClass).length, input.length),
        (1, 0, head.length + (rest.takeWhile inClass).length)]⟩ 1 =
      some (0, head.length + (rest.takeWhile inClass).length) := rfl
  have htake : input.take (head.length + (rest.takeWhile inClass).length) =
      head ++ rest.takeWhile inClass := by
    rw [hinput, List.take_length_add_append,
      ← List.prefix_iff_eq_take.mp (List.takeWhile_prefix inClass)]
  rw [libzeUtilRegexSubexprReplace, strlcpy, take_of_fits hfits]
  dsimp only
  rw [if_neg (by exact Nat.not_le.mpr hfits), regexec_loaderRe, hafter]
  dsimp only [Option.map_some]
  rw [htemplate, List.length_cons, replaceSubexprs_first _ hgroup (by omega)
    (by rw [hinput, List.length_append]; omega) hplain hdigit, htake]
  have hlength : (newLine beName head rest).length =
      head.length + (rest.takeWhile inClass).length + (entryName beName ++ ("\n" : CStr)).length := by
    simp only [newLine, List.length_append]
  rw [hlength, newLine]

/-- The callback leaves the rewritten line, or fails. -/
theorem getLoaderLineFromRegex_run (hname : '\\' ∉ beName) (hfits : NameFits beName)
    (hline : line.length < libzeMaxPathLen) (buf : CStr) (s : Sys) :
    (∃ w, rewritten beName line = some w ∧
      getLoaderLineFromRegex beName line buf s = ((.success, w), s)) ∨
    rewritten beName line = none ∧ ∃ err out t, err ≠ .success ∧
      getLoaderLineFromRegex beName line buf s = ((err, out), t) ∧ t.files = s.files := by
  have hcut : (cString line).length < libzeMaxPathLen :=
    Nat.lt_of_le_of_lt (cString_length line) hline
  unfold getLoaderLineFromRegex rewritten
  rw [formLoaderRegex_eq]
  dsimp only
  rw [if_neg (by exact Nat.not_le.mpr hfits)]
  unfold rewriteLine
  rw [regexec_loaderRe]
  cases hafter : afterDefault (cString line) with
  | none =>
    refine .inl ⟨_, rfl, ?_⟩
    simp only [Option.map_none, strlcpy, take_of_fits hcut]
    rw [if_neg (by omega)]
    rfl
  | some p =>
    obtain ⟨head, rest⟩ := p
    simp only [Option.map_some]
    rw [libzeUtilRegexSubexprReplace_loader hname hfits hafter]
    dsimp only
    by_cases hshort : (newLine beName head rest).length < libzeMaxPathLen
    · rw [if_pos hshort, if_pos hshort]
      exact .inl ⟨_, rfl, rfl⟩
    · rw [if_neg hshort, if_neg hshort]
      exact .inr ⟨rfl, .maxpathlen, _, _, by decide, rfl, rfl⟩

/-- A name that is too long leaves the buffer as it was. -/
theorem getLoaderLineFromRegex_long (hlong : ¬ NameFits beName) (line buf : CStr) (s : Sys) : ∃ t,
    getLoaderLineFromRegex beName line buf s = ((.success, buf), t) ∧ t.files = s.files := by
  unfold getLoaderLineFromRegex
  rw [formLoaderRegex_eq]
  dsimp only
  rw [if_pos (by exact Nat.not_lt.mp hlong)]
  exact ⟨_, rfl, rfl⟩

end Line

/-! ## What is written for a file -/

/-- What the loop writes, up to the first line on which the callback fails. -/
def written (beName : CStr) : List CStr → CStr
  | [] => []
  | line :: rest =>
    match rewritten beName line with
    | none => []
    | some w => w ++ written beName rest

section File
variable {host : Host} {h : Handle} {beName path new acc content : CStr} {s t : Sys}

theorem replaceLines_written (hwrites : GrantsWrites host) (hname : '\\' ∉ beName)
    (hfits : NameFits beName) (ls : List CStr) (hls : ∀ line ∈ ls, line.length < libzeMaxPathLen)
    (buf : CStr) (hs : s.readFile new = some acc) :
    (replaceLines host new (getLoaderLineFromRegex beName) ls buf s).2.readFile new =
      some (acc ++ written beName ls) := by
  induction ls generalizing acc buf s with
  | nil => simpa [replaceLines, written] using hs
  | cons line rest ih =>
    rw [replaceLines, run_bind, written]
    obtain ⟨w, hw, hrun⟩ | ⟨hnone, err, out, t, herr, hrun, hfiles⟩ :=
      getLoaderLineFromRegex_run hname hfits (hls line List.mem_cons_self) buf s
    · rw [hrun, hw]
      dsimp only
      rw [if_neg (by simp), run_bind, ← List.append_assoc]
      exact ih (fun l hl => hls l (List.mem_cons_of_mem _ hl)) w
        (readFile_fwrite hs (.inr (hwrites s new w)))
    · rw [hrun, hnone]
      dsimp only
      rw [if_pos herr, List.append_nil]
      exact (readFile_of_files hfiles).trans hs

theorem replaceLines_long (hlong : ¬ NameFits beName) (ls : List CStr)
    (hs : s.readFile new = some acc) :
    (replaceLines host new (getLoaderLineFromRegex beName) ls [] s).2.readFile new = some acc := by
  induction ls generalizing s with
  | nil => exact hs
  | cons line rest ih =>
    obtain ⟨t, hrun, hfiles⟩ :=
      getLoaderLineFromRegex_long hlong line [] s
    rw [replaceLines, run_bind, hrun]
    dsimp only
    rw [if_neg (by simp), run_bind]
    have hwrite := @readFile_fwrite host new t [] acc ((readFile_of_files hfiles).trans hs) (.inl rfl)
    rw [List.append_nil] at hwrite
    exact ih hwrite

/-- After a success `loader.conf` is what the loop has left in the temporary file. -/
theorem updateLoaderDefault_replaced (hrule : MkstempRule host)
    (hcontent : s.readFile path = some content) (hfit : Fits content)
    (hr : updateLoaderDefault host h path beName s = (.success, t)) :
    ∃ tmpfile s1 u, makeTmpfile host path "Backup loader.conf exceeds max path length.\n" s =
        ((.success, tmpfile), s1) ∧ Opened host path tmpfile s1 u ∧ u.readFile tmpfile = some [] ∧
      ∀ new, (replaceLines host tmpfile (getLoaderLineFromRegex beName) (lines '\n' content) []
        u).2.readFile tmpfile = some new → t.readFile path = some new := by
  unfold updateLoaderDefault at hr
  split at hr
  · cases hr
  obtain ⟨tmpfile, s1, s2, hmade, hmatched⟩ := updateFile_made hr
  obtain ⟨content', hs, hs1, hne, htmp⟩ := makeTmpfile_success hrule hmade
  cases hcontent.symm.trans hs
  obtain ⟨read, u1, u2, hopen, hread, hlines⟩ := replaceMatched_ran hmatched
  have hempty : u1.readFile tmpfile = some [] := by
    rw [(call_done hopen).2]
    exact readFile_putFile_self
  have hu1 : u1.readFile path = some content := by
    rw [(call_done hopen).2]
    exact (readFile_putFile_of_ne hne).trans hs1
  obtain rfl : read = content := Option.some.inj ((fopenRead_ok hread).1.symm.trans hu1)
  rw [readLines, reads_eq_lines hfit] at hlines
  have hfn : ∀ line buf, Issues host (Spares path) (getLoaderLineFromRegex beName line buf) :=
    fun line buf => getLoaderLineFromRegex_issues line buf
  refine ⟨tmpfile, s1, u2, hmade, ⟨u1, read, hopen, hread⟩,
    (readFile_of_files (fopenRead_ok hread).2).trans hempty, fun new hnew => ?_⟩
  cases updateFile_end hrule hfn hmade hmatched hr with
  | refused _ hr => exact absurd rfl hr
  | @replaced s3 _ hclose hrename =>
    have hs3 : s3.readFile tmpfile = s2.readFile tmpfile := by
      rw [(call_done hclose).2]
      rfl
    rw [hlines] at hnew
    exact readFile_rename hrename (hs3.trans hnew)

/-- What stands in `loader.conf` after a success where there is room for it. -/
theorem updateLoaderDefault_file (hwrites : GrantsWrites host) (hrule : MkstempRule host)
    (hname : '\\' ∉ beName) (hfits : NameFits beName) (hcontent : s.readFile path = some content)
    (hfit : Fits content) (hr : updateLoaderDefault host h path beName s = (.success, t)) :
    t.readFile path = some (written beName (lines '\n' content)) := by
  obtain ⟨tmpfile, s1, u, -, -, hempty, hnew⟩ := updateLoaderDefault_replaced hrule hcontent hfit hr
  apply hnew
  rw [replaceLines_written hwrites hname hfits _ hfit [] hempty, List.nil_append]

end File

end Zectl.Systemdboot.Loader
