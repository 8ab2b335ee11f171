import Zectl.Lib.RegexGroups
import Zectl.Lib.RegexSyntax
import Zectl.Systemdboot.Entry
import Zectl.Util.SubexprReplace

/-!
# What the rewriting of a line leaves

The callbacks put a name between the first and the last group of an expression. The new line is
made of the texts of the selected split, without what is in front of it.
-/

namespace Zectl.Systemdboot.RewriteLine

open Zectl.Lib.BasicRegex Zectl.Lib.RegexMatches Zectl.Lib.RegexGroups Zectl.Lib.RegexSyntax
open Zectl.Util.CString Zectl.Util.Replace Zectl.Util.SubexprReplace Zectl.Zfs.System
open Zectl.Systemdboot.ReplaceMatched Zectl.Systemdboot.Loader Zectl.Systemdboot.Fstab

/-- What is between the words of a line, or ends it. -/
def isSeparator (c : Char) : Bool := c == ' ' || c == '\t' || c == '\n'

/-! ## Quoted names -/

section Quoted
variable {text out : CStr}

theorem replaceOccurrences_dot (text : CStr) :
    replaceOccurrences "." "\\." 0 text = quoted text := by
  induction text with
  | nil => rfl
  | cons c rest ih =>
    have hdot : ("." : CStr) = ['.'] := by decide +kernel
    have hquote : ("\\." : CStr) = ['\\', '.'] := by decide +kernel
    rw [hdot, hquote] at ih ⊢
    rw [replaceOccurrences, quoted, List.flatMap_cons]
    by_cases hc : c = '.'
    · subst hc
      rw [if_pos (by simp), if_pos rfl]
      exact congrArg _ ih
    · have hne : List.isPrefixOf ['.'] (c :: rest) = false := by
        simp [List.isPrefixOf_cons_cons, Ne.symm hc]
      rw [hne, if_neg (by decide), if_neg hc]
      exact congrArg (c :: ·) ih

theorem noDots_success (h : noDots text = (.success, out)) :
    out = quoted text ∧ out.length < zfsMaxDatasetNameLen := by
  unfold noDots libzeUtilReplaceString at h
  rw [if_neg (by decide), replaceOccurrences_dot] at h
  split at h
  · cases h
  dsimp only [strlcpy] at h
  split at h
  · cases h
  · rename_i hfit
    cases h
    rw [take_of_fits (Nat.not_le.mp hfit)]
    exact ⟨rfl, Nat.not_le.mp hfit⟩

/-- Any text. -/
def anything : Bre := .seq (.rep (.sym .any) 0 none) .empty

theorem matches_anything {before w after : CStr} : Matches anything before w after := by
  have hall := @Matches.seq _ _ before w [] after matches_dots .empty
  rwa [List.append_nil] at hall

end Quoted

/-! ## Templates -/

section Template
variable {g : Char → CStr} {before middle name : CStr} {ps : List Piece}

theorem pieces_name (hname : '\\' ∉ name) (rest : CStr) :
    pieces (name ++ rest) = name.map Piece.char ++ pieces rest := by
  induction name with
  | nil => rfl
  | cons c name ih =>
    obtain ⟨hc, htail⟩ : '\\' ≠ c ∧ '\\' ∉ name := by simpa using hname
    rw [List.cons_append, pieces_plain fun heq => absurd heq.symm hc, ih htail, List.map_cons,
      List.cons_append]

theorem flatMap_name (name : CStr) : (name.map Piece.char).flatMap (Piece.text g) = name := by
  rw [List.flatMap_map]
  exact List.flatMap_singleton' name

theorem clean_name : Clean g before (name.map Piece.char ++ ps) ↔ Clean g (before ++ name) ps := by
  induction name generalizing before with
  | nil => rw [List.map_nil, List.nil_append, List.append_nil]
  | cons c name ih =>
    rw [List.map_cons, List.cons_append, clean_cons_iff, ih]
    have hchar : ∀ d, Piece.char c = .ref d → Settled (before ++ g d) (name.map Piece.char ++ ps) :=
      fun d heq => Piece.noConfusion heq
    rw [and_iff_right hchar, List.append_assoc]
    rfl

/-- A name between the first and the third group. -/
def template (middle : CStr) : CStr := format ["\\1", middle, "\\3"]

theorem pieces_template (hmiddle : '\\' ∉ middle) :
    pieces (template middle) = .ref '1' :: (middle.map Piece.char ++ [.ref '3']) := by
  have hform : template middle = '\\' :: '1' :: (middle ++ ['\\', '3']) := by
    simp only [template, format, List.flatten_cons, List.flatten_nil, List.append_nil]
    rfl
  have hlast : pieces ['\\', '3'] = [.ref '3'] := by decide
  rw [hform, pieces_ref (by decide), pieces_name hmiddle, hlast]

theorem substitute_template (hmiddle : '\\' ∉ middle) :
    substitute g (template middle) = g '1' ++ (middle ++ g '3') := by
  rw [substitute, pieces_template hmiddle, List.flatMap_cons, List.flatMap_append, flatMap_name,
    List.flatMap_singleton]
  rfl

/-- The name is put in as it is when no backslash in front of it makes a reference of its first
digit. -/
theorem clean_template (hmiddle : '\\' ∉ middle) (hfirst : g '1' ≠ [])
    (hdigit : (g '1').getLast? = some '\\' → ∀ c ∈ middle.head?, ¬ IsRef c) :
    Clean g [] (pieces (template middle)) := by
  rw [pieces_template hmiddle, clean_cons_iff, clean_name, clean_cons_iff]
  refine ⟨?_, ?_, ?_⟩
  · intro d heq
    cases heq
    refine ⟨hfirst, fun hlast c hc => ?_⟩
    cases middle with
    | nil => cases hc
    | cons e rest =>
      have hce : e = c := by simpa using hc
      exact hdigit hlast c (by simp [hce])
  · intro d heq
    cases heq
    refine ⟨?_, fun _ c hc => by cases hc⟩
    simp [Piece.text, hfirst]
  · intro p d q heq
    simp at heq

/-- A name between the first three groups and the fifth one. -/
def pathTemplate (name : CStr) : CStr := format ["\\1\\2\\3", name, "\\5"]

theorem pieces_pathTemplate (hname : '\\' ∉ name) : pieces (pathTemplate name) =
    .ref '1' :: .ref '2' :: .ref '3' :: (name.map Piece.char ++ [.ref '5']) := by
  have hform : pathTemplate name =
      '\\' :: '1' :: '\\' :: '2' :: '\\' :: '3' :: (name ++ ['\\', '5']) := by
    simp only [pathTemplate, format, List.flatten_cons, List.flatten_nil, List.append_nil]
    rfl
  have hlast : pieces ['\\', '5'] = [.ref '5'] := by decide
  rw [hform, pieces_ref (by decide), pieces_ref (by decide), pieces_ref (by decide),
    pieces_name hname, hlast]

theorem substitute_pathTemplate (hname : '\\' ∉ name) :
    substitute g (pathTemplate name) = g '1' ++ (g '2' ++ (g '3' ++ (name ++ g '5'))) := by
  rw [substitute, pieces_pathTemplate hname]
  simp only [List.flatMap_cons, List.flatMap_append, flatMap_name, List.flatMap_nil, Piece.text,
    List.append_nil]

theorem clean_pathTemplate (hname : '\\' ∉ name) (hfirst : g '1' ≠ []) {c : Char}
    (hlast : (g '3').getLast? = some c) (hc : c ≠ '\\') :
    Clean g [] (pieces (pathTemplate name)) := by
  have hthree : ∀ u : CStr, (u ++ g '3').getLast? = some c := by
    intro u
    rw [List.getLast?_append, hlast]
    rfl
  rw [pieces_pathTemplate hname, clean_cons_iff, clean_cons_iff, clean_cons_iff, clean_name,
    clean_cons_iff]
  refine ⟨?_, ?_, ?_, ?_, ?_⟩
  · intro d heq
    cases heq
    exact ⟨hfirst, fun _ e he => by cases he⟩
  · intro d heq
    cases heq
    exact ⟨by simp [Piece.text, hfirst], fun _ e he => by cases he⟩
  · intro d heq
    cases heq
    refine ⟨by simp [Piece.text, hfirst], fun hslash => ?_⟩
    rw [hthree] at hslash
    exact absurd (Option.some.inj hslash) hc
  · intro d heq
    cases heq
    exact ⟨by simp [Piece.text, hfirst], fun _ e he => by cases he⟩
  · intro p d q heq
    simp at heq

end Template

/-! ## The line -/

section Line
variable {rs : List Bre} {line buf out template before after : CStr} {ws : List CStr} {s : Sys}

/-- The text of a group. -/
def textOf (ws : List CStr) (d : Char) : CStr := (ws[d.toNat - asciiOffset - 1]?).getD []

theorem groupSpan_marks {start stop : Nat} {d : Char} (hd : IsRef d)
    (hinput : line = before ++ (ws.flatten ++ after)) :
    groupSpan (Match.group ⟨start, stop, marks 1 before.length ws []⟩) line d =
      (ws[d.toNat - asciiOffset - 1]?).map fun w => (w.length, w) := by
  have hindex : 0 < d.toNat - asciiOffset := by
    have hlt : '0'.toNat < d.toNat := hd.1
    have hzero : '0'.toNat = 48 := rfl
    rw [asciiOffset]
    omega
  obtain ⟨k, hk⟩ : ∃ k, d.toNat - asciiOffset = 1 + k := ⟨d.toNat - asciiOffset - 1, by omega⟩
  rw [groupSpan, hk, Match.group, if_neg (by omega), Nat.add_sub_cancel_left]
  dsimp only
  by_cases hin : k < ws.length
  · have hparts : ws = ws.take k ++ (ws)[k] :: ws.drop (k + 1) := by
      rw [List.getElem_cons_drop, List.take_append_drop]
    have hlook := @lookup_marks 1 before.length [] (ws.take k) (ws.drop (k + 1)) (ws)[k]
    rw [← hparts, List.length_take_of_le (Nat.le_of_lt hin)] at hlook
    rw [hlook, List.getElem?_eq_getElem hin, Option.map_some, Option.map_some]
    dsimp only
    have htext : line = (before ++ (ws.take k).flatten) ++
        ((ws)[k] ++ ((ws.drop (k + 1)).flatten ++ after)) := by
      have hflat := congrArg List.flatten hparts
      rw [List.flatten_append, List.flatten_cons] at hflat
      rw [hinput, hflat]
      simp only [List.append_assoc]
    rw [htext, ← List.length_append, List.drop_left, Nat.add_sub_cancel_left, List.take_left]
  · rw [lookup_marks_ge (by omega), List.getElem?_eq_none (by omega)]
    rfl

theorem groupText_marks {start stop : Nat} {d : Char} (hd : IsRef d)
    (hinput : line = before ++ (ws.flatten ++ after)) :
    groupText (Match.group ⟨start, stop, marks 1 before.length ws []⟩) line d = textOf ws d := by
  rw [groupText_eq, groupSpan_marks hd hinput, textOf, Option.map_map]
  cases (ws[d.toNat - asciiOffset - 1]?) with
  | none => rfl
  | some w => rfl

theorem cString_eq_self (hline : '\x00' ∉ line) : cString line = line := by
  apply List.takeWhile_eq_self_iff.mpr
  intro c hc
  rw [decide_eq_true_iff]
  rintro rfl
  exact hline hc

/-- A line is kept, or rewritten from the selected split. -/
theorem rewriteLine_success (hrs : ∀ r ∈ rs, Simple r) (hline : '\x00' ∉ line)
    (hfits : template.length < libzeMaxPathLen)
    (h : (rewriteLine (groups 1 rs) template line buf s).1 = (.success, out)) :
    (NoSplit rs line ∧ out = line) ∨ ∃ before ws after g, Best rs line before ws after ∧
      (∀ d, IsRef d → g d = textOf ws d) ∧
      (Clean g [] (pieces template) → out = substitute g template) := by
  unfold rewriteLine at h
  rw [cString_eq_self hline] at h
  obtain ⟨hexec, hnone⟩ | ⟨before, ws, after, hbest, hexec⟩ := @regexec_groups rs line hrs
  · rw [hexec] at h
    dsimp only [strlcpy] at h
    split at h
    · cases h
    · rename_i hshort
      refine .inl ⟨hnone, ?_⟩
      have hcopy : line.take (libzeMaxPathLen - 1) = out := (Prod.mk.inj h).2
      rw [← hcopy, take_of_fits (Nat.not_le.mp hshort)]
  · rw [hexec] at h
    dsimp only at h
    let m : Match := ⟨before.length, before.length + ws.flatten.length, marks 1 before.length ws []⟩
    refine .inr ⟨before, ws, after, groupText m.group line, hbest,
      fun d hd => groupText_marks hd hbest.input_eq, fun hclean => ?_⟩
    cases hreplace : libzeUtilRegexSubexprReplace (groups 1 rs) libzeMaxPathLen template line
      libzeMaxPathLen with
    | none =>
      rw [hreplace] at h
      cases h
    | some result =>
      obtain ⟨ret, replaced⟩ := result
      rw [hreplace] at h
      dsimp only at h
      split at h
      · rename_i hne
        exact absurd (Prod.mk.inj h).1 hne
      · rename_i hret
        rw [not_not.mp hret] at hreplace
        have hall : ∀ ret out, libzeUtilRegexSubexprReplace (groups 1 rs) libzeMaxPathLen template
            line libzeMaxPathLen = some (ret, out) → ret = .success := by
          intro ret' out' hrun
          rw [hreplace] at hrun
          cases hrun
          rfl
        have hsub := (substitutes_iff hexec hfits hfits hall).mpr hclean
        have hout : replaced = out := (Prod.mk.inj h).2
        exact hout ▸ (hsub.2 replaced hreplace).1

/-- Two lines are rewritten to the same one when the groups that the template refers to hold the
same texts in both. -/
theorem rewriteLine_congr {rs' : List Bre} {line' before' after' : CStr} {ws' : List CStr}
    (hrs : ∀ r ∈ rs, Simple r) (hrs' : ∀ r ∈ rs', Simple r) (hline : '\x00' ∉ line)
    (hline' : '\x00' ∉ line') (hbest : Best rs line before ws after)
    (hbest' : Best rs' line' before' ws' after')
    (hclean : ∀ g, (∀ d, IsRef d → g d = textOf ws d) → Clean g [] (pieces template))
    (hsame : ∀ d, Piece.ref d ∈ pieces template → IsRef d ∧
      ws[d.toNat - asciiOffset - 1]? = ws'[d.toNat - asciiOffset - 1]?) :
    (rewriteLine (groups 1 rs) template line buf s).1 =
      (rewriteLine (groups 1 rs') template line' buf s).1 := by
  have hexec := hbest.exec hrs
  have hexec' := hbest'.exec hrs'
  have hreplace : libzeUtilRegexSubexprReplace (groups 1 rs) libzeMaxPathLen template line
      libzeMaxPathLen = libzeUtilRegexSubexprReplace (groups 1 rs') libzeMaxPathLen template line'
        libzeMaxPathLen := by
    unfold libzeUtilRegexSubexprReplace
    dsimp only [strlcpy]
    split
    · rfl
    · rename_i hlong
      rw [hexec, hexec', take_of_fits (Nat.not_le.mp hlong)]
      apply replace_congr le_rfl
      · exact hclean _ fun d hd => groupText_marks hd hbest.input_eq
      · intro d hd
        obtain ⟨href, hgroup⟩ := hsame d hd
        rw [groupSpan_marks href hbest.input_eq, groupSpan_marks href hbest'.input_eq, hgroup]
  unfold rewriteLine
  rw [cString_eq_self hline, cString_eq_self hline', hexec, hexec']
  dsimp only
  rw [hreplace]

end Line

end Zectl.Systemdboot.RewriteLine
