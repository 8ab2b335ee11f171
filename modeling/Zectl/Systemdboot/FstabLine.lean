import Zectl.Lib.Words
import Zectl.Systemdboot.RewriteLine

/-!
# The lines of the table of mounts

One greedy expression finds the line that binds the kernels of an environment to the boot mount
point. It knows nothing of fields: it goes to the last occurrence of the mount point, and an
occurrence need be no field.
-/

namespace Zectl.Systemdboot.FstabLine

open Zectl.Lib.BasicRegex Zectl.Lib.RegexMatches Zectl.Lib.RegexGroups Zectl.Lib.RegexSyntax
open Zectl.Lib.Words
open Zectl.Util.CString Zectl.Util.Replace Zectl.Zfs.System
open Zectl.Util.SubexprReplace (IsRef substitute)
open Zectl.Systemdboot.ReplaceMatched Zectl.Systemdboot.Loader Zectl.Systemdboot.Fstab
open Zectl.Systemdboot.Entry Zectl.Systemdboot.RewriteLine Zectl.Libze.Sample

/-! ## The expression -/

/-- Blanks, a text, and what follows it. -/
def behindBlanks (text : CStr) (r : Bre) : Bre := .seq (.rep (.sym blanks) 0 none) (literal text r)

def fstabGroups (efi boot : CStr) : List Bre :=
  [.seq .bol (behindBlanks (kernelDir efi []) .empty), anything,
    behindBlanks boot (.seq (.rep (.sym .any) 0 none) (.seq .eol .empty))]

section Form
variable {efi boot : CStr} {re : Bre}

theorem reads_blanks : Reads "[\t ]" [.sym blanks] := by
  have hset : ("[\t ]" : CStr) = ['[', '\t', ' ', ']'] := by decide +kernel
  rw [hset]
  exact reads_pair (by decide) (by decide)

theorem reads_open : Reads "\\(^[\t ]*" [.opening, .caret, .sym blanks, .star] := by
  have hparts : ("\\(^[\t ]*" : CStr) = "\\(^" ++ ("[\t ]" ++ ("*" : CStr)) := by decide +kernel
  have hstart : Reads "\\(^" [.opening, .caret] := reads_tokens (by decide +kernel)
  have hstar : Reads "*" [.star] := reads_tokens (by decide +kernel)
  rw [hparts]
  exact hstart.append (reads_blanks.append hstar)

/-- What is between the names. -/
def betweenNames : CStr := format ["/env/", quoted zePropNamespace, "-\\)\\(.*\\)\\([\t ]*"]

theorem reads_between : Reads betweenNames ([chars "/env/org.zectl-",
    [.closing, .opening, .sym .any, .star, .closing, .opening, .sym blanks, .star]] :
      List (List Token)).flatten := by
  have hparts : betweenNames = [("/env/" ++ (quoted zePropNamespace ++ ("-" : CStr))),
      "\\)\\(.*\\)\\(" ++ ("[\t ]" ++ ("*" : CStr))].flatten := by decide +kernel
  have hdir : Reads ("/env/" ++ (quoted zePropNamespace ++ ("-" : CStr))) (chars "/env/org.zectl-") :=
    reads_tokens (by decide +kernel)
  have hopen : Reads "\\)\\(.*\\)\\(" [.closing, .opening, .sym .any, .star, .closing, .opening] :=
    reads_tokens (by decide +kernel)
  have hstar : Reads "*" [.star] := reads_tokens (by decide +kernel)
  rw [hparts]
  exact reads_flatten (.cons hdir (.cons (hopen.append (reads_blanks.append hstar)) .nil))

theorem reads_close : Reads ".*$\\)" [.sym .any, .star, .dollar, .closing] :=
  reads_tokens (by decide +kernel)

theorem fstab_pattern (efi boot : CStr) : format ["\\(^[\t ]*", quoted efi, "/env/",
    quoted zePropNamespace, "-\\)\\(.*\\)\\([\t ]*", quoted boot, ".*$\\)"] =
      format ["\\(^[\t ]*", quoted efi, betweenNames, quoted boot, ".*$\\)"] := by
  simp only [format, betweenNames, List.flatten_cons, List.flatten_nil, List.append_nil,
    List.append_assoc]

/-- What is read between the names. -/
theorem reads_fstab (hefi : ∀ c ∈ efi, Ordinary c) (hboot : ∀ c ∈ boot, Ordinary c) :
    Reads (format ["\\(^[\t ]*", quoted efi, betweenNames, quoted boot, ".*$\\)"])
      ([[.opening, .caret, .sym blanks, .star], chars efi,
        [chars "/env/org.zectl-", [.closing, .opening, .sym .any, .star, .closing, .opening,
          .sym blanks, .star]].flatten, chars boot, [.sym .any, .star, .dollar, .closing]] :
        List (List Token)).flatten :=
  reads_flatten (.cons reads_open (.cons (reads_quoted hefi) (.cons reads_between
    (.cons (reads_quoted hboot) (.cons reads_close .nil)))))

theorem regcomp_fstab (hefi : ∀ c ∈ efi, Ordinary c) (hboot : ∀ c ∈ boot, Ordinary c) :
    regcomp (format ["\\(^[\t ]*", quoted efi, "/env/", quoted zePropNamespace,
      "-\\)\\(.*\\)\\([\t ]*", quoted boot, ".*$\\)"]) = some (groups 1 (fstabGroups efi boot)) := by
  rw [fstab_pattern, regcomp, (reads_fstab hefi hboot).lex, Option.bind_some]
  simp only [List.flatten_cons, List.flatten_nil, List.cons_append, List.nil_append,
    List.append_assoc, parse, parse_chars, Open.push, Open.close, List.isEmpty_nil, if_true,
    List.foldl_cons, List.foldl_nil, branch, branch_symbols, symbols_literal, ← literal_append]
  rfl

theorem formFstabRegex_ok (hefi : ∀ c ∈ efi, Ordinary c) (hboot : ∀ c ∈ boot, Ordinary c)
    (h : formFstabRegex boot efi = .ok re) : re = groups 1 (fstabGroups efi boot) := by
  unfold formFstabRegex at h
  split at h
  · rename_i hns hefi' hboot'
    rw [(noDots_success hns).1, (noDots_success hefi').1, (noDots_success hboot').1] at h
    dsimp only at h
    rw [regcomp_fstab hefi hboot] at h
    split at h
    · cases h
    · exact (Except.ok.inj h).symm
  · cases h
  · cases h
  · cases h

end Form

/-! ## Where a line is cut -/

/-- A blank of a pattern. -/
def IsBlank (c : Char) : Prop := c = '\t' ∨ c = ' '

/-- A line as the expression divides it: at the last occurrence of the mount point. -/
structure Cut (efi boot line b p q : CStr) : Prop where
  line_eq : line = b ++ (kernelDir efi [] ++ (p ++ (boot ++ q)))
  blank : ∀ c ∈ b, IsBlank c
  last : ∀ p' q', p ++ (boot ++ q) = p' ++ (boot ++ q') → p'.length ≤ p.length

section Splits
variable {efi boot before after line b p q : CStr} {ws : List CStr}

theorem blanks_has {c : Char} : blanks.has c = true ↔ IsBlank c := by
  simp [blanks, Sym.has, Item.has, IsBlank]

theorem matches_behindBlanks {text w : CStr} {r : Bre} :
    Matches (behindBlanks text r) before w after ↔ ∃ b v, w = b ++ (text ++ v) ∧
      (∀ c ∈ b, IsBlank c) ∧ Matches r (before ++ b ++ text) v after := by
  rw [behindBlanks, matches_seq_iff]
  constructor
  · intro h
    obtain ⟨b, t, rfl, hb, ht⟩ := h
    obtain ⟨v, rfl, hv⟩ := matches_literal_iff.mp ht
    exact ⟨b, v, rfl, fun c hc => blanks_has.mp (matches_star_iff.mp hb c hc), hv⟩
  · intro h
    obtain ⟨b, v, rfl, hb, hv⟩ := h
    exact ⟨b, text ++ v, rfl, matches_star_iff.mpr fun c hc => blanks_has.mpr (hb c hc),
      matches_literal_iff.mpr ⟨v, rfl, hv⟩⟩

theorem fstabGroups_simple : ∀ r ∈ fstabGroups efi boot, Simple r := by
  have hstar : ∀ k, Simple (.rep (.sym k) 0 none) := fun k => ⟨trivial, rfl, rfl⟩
  intro r hr
  simp only [fstabGroups, List.mem_cons, List.not_mem_nil, or_false] at hr
  obtain rfl | rfl | rfl := hr
  · exact ⟨trivial, hstar _, simple_literal trivial⟩
  · exact ⟨hstar _, trivial⟩
  · exact ⟨hstar _, simple_literal ⟨hstar _, trivial, trivial⟩⟩

/-- Blanks and the directory, any text, and blanks, the mount point and all the rest. -/
theorem splits_fstab : Splits (fstabGroups efi boot) before ws after ↔ before = [] ∧ after = [] ∧
    ∃ b p c q, (∀ d ∈ b, IsBlank d) ∧ (∀ d ∈ c, IsBlank d) ∧
      ws = [b ++ kernelDir efi [], p, c ++ (boot ++ q)] := by
  rw [fstabGroups, splits_cons_iff]
  constructor
  · intro h
    obtain ⟨w, vs, rfl, hw, h⟩ := h
    obtain ⟨p, us, rfl, -, h⟩ := splits_cons_iff.mp h
    obtain ⟨w', ts, rfl, hw', h⟩ := splits_cons_iff.mp h
    obtain rfl := splits_nil_iff.mp h
    obtain ⟨u, v, rfl, hu, hv⟩ := matches_seq_iff.mp hw
    obtain ⟨rfl, rfl⟩ := matches_bol_iff.mp hu
    obtain ⟨b, t, rfl, hb, ht⟩ := matches_behindBlanks.mp hv
    obtain rfl := matches_empty_iff.mp ht
    obtain ⟨c, t', rfl, hc, ht'⟩ := matches_behindBlanks.mp hw'
    obtain ⟨q, e, rfl, -, he⟩ := matches_seq_iff.mp ht'
    obtain ⟨x, y, rfl, hx, hy⟩ := matches_seq_iff.mp he
    obtain ⟨rfl, hafter⟩ := matches_eol_iff.mp hx
    obtain rfl := matches_empty_iff.mp hy
    refine ⟨rfl, by simpa using hafter, b, p, c, q, hb, hc, ?_⟩
    simp only [List.nil_append, List.append_nil]
  · intro h
    obtain ⟨rfl, rfl, b, p, c, q, hb, hc, rfl⟩ := h
    have hrest : Matches (.seq (.rep (.sym .any) 0 none) (.seq .eol .empty))
        ([] ++ (b ++ kernelDir efi []) ++ p ++ c ++ boot) q [] :=
      matches_seq_iff.mpr ⟨q, [], (List.append_nil q).symm, matches_dots,
        matches_seq_iff.mpr ⟨[], [], rfl, .eol, .empty⟩⟩
    refine ⟨_, _, rfl, ?_, .cons matches_anything (.cons ?_ .nil)⟩
    · apply matches_seq_iff.mpr
      have hkernels : b ++ kernelDir efi [] = b ++ (kernelDir efi [] ++ []) := by
        rw [List.append_nil]
      exact ⟨[], _, rfl, .bol, matches_behindBlanks.mpr ⟨b, [], hkernels, hb, .empty⟩⟩
    · exact matches_behindBlanks.mpr ⟨c, q, rfl, hc, hrest⟩

theorem flatten_three (u v w : CStr) : [u, v, w].flatten = u ++ (v ++ w) := by
  simp only [List.flatten_cons, List.flatten_nil, List.append_nil]

/-- The selected split gives the second group the blanks as well. -/
theorem cut_of_best (h : Best (fstabGroups efi boot) line before ws after) :
    ∃ b p q, Cut efi boot line b p q ∧ ws = [b ++ kernelDir efi [], p, boot ++ q] := by
  obtain ⟨rfl, rfl, b, p, c, q, hb, hc, rfl⟩ := splits_fstab.mp h.splits
  have hgreedy : ∀ p' q', p ++ (c ++ (boot ++ q)) = p' ++ (boot ++ q') → p'.length ≤ p.length := by
    intro p' q' heq
    have hle := h.greedy [b ++ kernelDir efi [], p', boot ++ q']
      (by rw [flatten_three, flatten_three, heq])
      (splits_fstab.mpr ⟨rfl, rfl, b, p', [], q', hb, fun _ hd => absurd hd List.not_mem_nil, rfl⟩)
    rw [NoLonger, NoLonger] at hle
    omega
  have hnil : c = [] := by
    have hle := hgreedy (p ++ c) q (by rw [List.append_assoc])
    rw [List.length_append] at hle
    exact List.length_eq_zero_iff.mp (by omega)
  subst hnil
  refine ⟨b, p, q, ⟨?_, hb, hgreedy⟩, rfl⟩
  rw [h.input_eq, flatten_three]
  simp only [List.nil_append, List.append_nil, List.append_assoc]

/-- An occurrence of the mount point behind the directory leads to a split. -/
theorem not_noSplit (hline : line = b ++ (kernelDir efi [] ++ (p ++ (boot ++ q))))
    (hb : ∀ c ∈ b, IsBlank c) : ¬ NoSplit (fstabGroups efi boot) line := by
  intro hnone
  apply hnone [] [b ++ kernelDir efi [], p, boot ++ q] []
  · rw [hline, flatten_three]
    simp only [List.nil_append, List.append_nil, List.append_assoc]
  · exact splits_fstab.mpr ⟨rfl, rfl, b, p, [], q, hb, fun _ hd => absurd hd List.not_mem_nil, rfl⟩

end Splits

/-! ## Fields -/

/-- The fields of a line. -/
def fields (line : CStr) : List CStr := words isSeparator line

/-- A line that binds the kernels of an environment to the boot mount point. -/
def IsBootLine (efi boot line : CStr) : Prop :=
  ∃ x rest, fields line = kernelDir efi x :: boot :: rest

/-- The first field of such a line has the new name, its other fields are those it had, and any
other line is what it was. -/
def Renames (efi boot new line out : CStr) : Prop :=
  (IsBootLine efi boot line → fields out = kernelDir efi new :: (fields line).tail) ∧
  (¬ IsBootLine efi boot line → out = line)

/-- The cut is between the first two fields of a line for the boot mount point. Of any other line
it takes out just what is put in. -/
def CutsFields (efi boot new line b p : CStr) : Prop :=
  (IsBootLine efi boot line → (fields (b ++ (kernelDir efi [] ++ p))).length = 1 ∧
    ∀ c ∈ new, isSeparator c = false) ∧
  (¬ IsBootLine efi boot line → p = new ++ ("    " : CStr))

/-- A line as `fgets` reads it: a newline is its last character. -/
def IsLine (line : CStr) : Prop := '\n' ∉ line.dropLast

/-- A character of a mount point. -/
def IsPathChar (c : Char) : Prop := Ordinary c ∧ isSeparator c = false

instance : DecidablePred IsPathChar := fun c =>
  inferInstanceAs (Decidable (Ordinary c ∧ isSeparator c = false))

section Fields
variable {efi boot new line b p q : CStr}

theorem kernelDir_append (x : CStr) : kernelDir efi x = kernelDir efi [] ++ x := by
  simp [kernelDir, format]

theorem isWord_kernelDir (hefi : ∀ c ∈ efi, isSeparator c = false) :
    IsWord isSeparator (kernelDir efi []) := by
  have hdir : kernelDir efi [] = efi ++ ("/env/org.zectl-" : CStr) := by
    have htail : ("/env/org.zectl-" : CStr) = "/env/" ++ (systemdbootEntryPrefix ++ ("-" : CStr)) := by
      decide +kernel
    rw [htail]
    simp [kernelDir, format]
  have hfixed : ("/env/org.zectl-" : CStr).all (fun c => !isSeparator c) = true := by
    decide +kernel
  constructor
  · rw [hdir]
    exact List.append_ne_nil_of_right_ne_nil _ (by decide)
  · intro c hc
    rw [hdir] at hc
    obtain hc | hc := List.mem_append.mp hc
    · exact hefi c hc
    · simpa using List.all_eq_true.mp hfixed c hc

theorem isSeparator_of_isBlank {c : Char} (hc : IsBlank c) : isSeparator c = true := by
  obtain rfl | rfl := hc
  · rfl
  · rfl

/-- Separators in front of more text are blanks. -/
theorem isBlank_of_isSeparator {u v : CStr} (hline : IsLine (u ++ v)) (hv : v ≠ [])
    (hu : ∀ c ∈ u, isSeparator c = true) : ∀ c ∈ u, IsBlank c := by
  intro c hc
  have hne : c ≠ '\n' := by
    rintro rfl
    apply hline
    rw [List.dropLast_append_of_ne_nil hv]
    exact List.mem_append_left _ hc
  have hsep := hu c hc
  simp only [isSeparator, Bool.or_eq_true, beq_iff_eq] at hsep
  obtain (hspace | htab) | hnewline := hsep
  · exact Or.inr hspace
  · exact Or.inl htab
  · exact absurd hnewline hne

/-- A line for the boot mount point: the directory and the rest of its name, blanks, the mount
point, and what follows it. -/
structure BootParts (efi boot line b x s q : CStr) : Prop where
  line_eq : line = b ++ (kernelDir efi [] ++ (x ++ (s ++ (boot ++ q))))
  blank : ∀ c ∈ b, IsBlank c
  first : IsWord isSeparator (kernelDir efi x)
  gap : ∀ c ∈ s, isSeparator c = true
  apart : s ≠ []
  second : IsWord isSeparator boot
  ends : EndsHere isSeparator q

theorem IsBootLine.parts (hline : IsLine line) (h : IsBootLine efi boot line) :
    ∃ b x s q, BootParts efi boot line b x s q := by
  obtain ⟨x, rest, hfields⟩ := h
  obtain ⟨b, t, rfl, hb, hfirst, ht, hrest⟩ := of_words_eq_cons hfields
  obtain ⟨s, q, rfl, hs, hsecond, hq, -⟩ := of_words_eq_cons hrest.symm
  refine ⟨b, x, s, q, ⟨?_, ?_, hfirst, hs, ?_, hsecond, hq⟩⟩
  · rw [kernelDir_append, List.append_assoc]
  · apply isBlank_of_isSeparator hline _ hb
    exact List.append_ne_nil_of_left_ne_nil hfirst.ne_nil _
  · rintro rfl
    obtain ⟨c, boot, rfl⟩ := List.exists_cons_of_ne_nil hsecond.ne_nil
    have hsep := ht c rfl
    rw [hsecond.free c List.mem_cons_self] at hsep
    cases hsep

variable {x s q' : CStr}

theorem BootParts.endsHere (h : BootParts efi boot line b x s q) (t : CStr) :
    EndsHere isSeparator (s ++ t) := by
  obtain ⟨c, s', rfl⟩ := List.exists_cons_of_ne_nil h.apart
  intro d hd
  obtain rfl : c = d := by simpa using hd
  exact h.gap c List.mem_cons_self

/-- The fields in front of what follows the blanks. -/
theorem BootParts.fields_append (h : BootParts efi boot line b x s q) (t : CStr) :
    fields (b ++ (kernelDir efi [] ++ (x ++ (s ++ t)))) = kernelDir efi x :: fields t := by
  have hdir : kernelDir efi [] ++ (x ++ (s ++ t)) = kernelDir efi x ++ (s ++ t) := by
    rw [kernelDir_append x, List.append_assoc]
  rw [fields, words_seps_append fun c hc => isSeparator_of_isBlank (h.blank c hc), hdir,
    words_append h.first (h.endsHere t), words_seps_append h.gap, fields]

theorem BootParts.fields_eq (h : BootParts efi boot line b x s q) :
    fields line = kernelDir efi x :: boot :: fields q := by
  rw [h.line_eq, h.fields_append, fields, words_append h.second h.ends, fields]

/-- The cut is at the second field or behind it. -/
theorem BootParts.cut (hefi : ∀ c ∈ efi, isSeparator c = false)
    (h : BootParts efi boot line b x s q) {b' p : CStr} (hcut : Cut efi boot line b' p q') :
    b' = b ∧ ∃ t, p = x ++ (s ++ t) ∧ t ++ (boot ++ q') = boot ++ q := by
  obtain ⟨c, e, he⟩ := List.exists_cons_of_ne_nil (isWord_kernelDir hefi).ne_nil
  have hc : isSeparator c = false := by
    apply (isWord_kernelDir hefi).free
    rw [he]
    exact List.mem_cons_self
  have hline := hcut.line_eq.symm.trans h.line_eq
  rw [he, List.cons_append, List.cons_append] at hline
  obtain ⟨hb, htail⟩ := seps_append_inj
    (fun c hc => isSeparator_of_isBlank (hcut.blank c hc))
    (fun c hc => isSeparator_of_isBlank (h.blank c hc)) hc hc hline
  have hrest := List.append_cancel_left (List.cons.inj htail).2
  rw [← List.append_assoc x] at hrest
  have hlast := hcut.last (x ++ s) q hrest
  obtain ⟨t, hp, ht⟩ | ⟨t, hp, ht⟩ := List.append_eq_append_iff.mp hrest
  · have hnil : t = [] := by
      rw [hp, List.length_append] at hlast
      exact List.length_eq_zero_iff.mp (by omega)
    subst hnil
    rw [List.append_nil] at hp
    refine ⟨hb, [], ?_, ht⟩
    rw [← hp, List.append_nil]
  · refine ⟨hb, t, ?_, ht.symm⟩
    rw [hp, List.append_assoc]

/-- What the cut takes in of the second field is not made of separators. -/
theorem BootParts.eq_nil_of_seps (h : BootParts efi boot line b x s q) {t : CStr}
    (ht : t ++ (boot ++ q') = boot ++ q) (hseps : ∀ c ∈ t, isSeparator c = true) : t = [] := by
  cases t with
  | nil => rfl
  | cons c t =>
    obtain ⟨d, boot', hboot⟩ := List.exists_cons_of_ne_nil h.second.ne_nil
    have hd : isSeparator d = false := h.second.free d (hboot ▸ List.mem_cons_self)
    rw [hboot] at ht
    obtain ⟨rfl, -⟩ := List.cons.inj ht
    rw [hseps c List.mem_cons_self] at hd
    cases hd

/-- The fields of a text that begins with the directory of the new name. -/
theorem fields_renamed (hefi : ∀ c ∈ efi, isSeparator c = false) (hb : ∀ c ∈ b, IsBlank c)
    (hnew : ∀ c ∈ new, isSeparator c = false) (t : CStr) :
    fields (b ++ (kernelDir efi [] ++ (new ++ ("    " : CStr) ++ t))) =
      kernelDir efi new :: fields t := by
  have hgap : ("    " : CStr) = [' ', ' ', ' ', ' '] := by decide +kernel
  have hword : IsWord isSeparator (kernelDir efi new) := by
    rw [kernelDir_append]
    constructor
    · exact List.append_ne_nil_of_left_ne_nil (isWord_kernelDir hefi).ne_nil _
    · intro c hc
      obtain hc | hc := List.mem_append.mp hc
      · exact (isWord_kernelDir hefi).free c hc
      · exact hnew c hc
  have hsplit : kernelDir efi [] ++ (new ++ ("    " : CStr) ++ t) =
      kernelDir efi new ++ (' ' :: ' ' :: ' ' :: ' ' :: t) := by
    rw [kernelDir_append new, hgap]
    simp only [List.append_assoc, List.cons_append, List.nil_append]
  have hends : EndsHere isSeparator (' ' :: ' ' :: ' ' :: ' ' :: t) := by
    intro c hc
    obtain rfl : ' ' = c := by simpa using hc
    rfl
  rw [hsplit, fields, words_seps_append fun c hc => isSeparator_of_isBlank (hb c hc),
    words_append hword hends, words_cons_of_sep rfl, words_cons_of_sep rfl, words_cons_of_sep rfl,
    words_cons_of_sep rfl, fields]

/-- The new text has the old fields behind the first one when the cut takes in nothing of them. -/
theorem BootParts.renamed_iff (hefi : ∀ c ∈ efi, isSeparator c = false)
    (h : BootParts efi boot line b x s q) {t : CStr} (ht : t ++ (boot ++ q') = boot ++ q) :
    fields (b ++ (kernelDir efi [] ++ (new ++ ("    " : CStr) ++ (boot ++ q')))) =
        kernelDir efi new :: boot :: fields q ↔
      t = [] ∧ ∀ c ∈ new, isSeparator c = false := by
  have hfields : fields (boot ++ q) = boot :: fields q := words_append h.second h.ends
  rw [← hfields]
  constructor
  · intro heq
    have hword : IsWord isSeparator (kernelDir efi new) :=
      isWord_of_mem (heq ▸ List.mem_cons_self)
    have hnew : ∀ c ∈ new, isSeparator c = false := by
      intro c hc
      apply hword.free
      rw [kernelDir_append]
      exact List.mem_append_right _ hc
    refine ⟨h.eq_nil_of_seps ht ?_, hnew⟩
    rw [fields_renamed hefi h.blank hnew] at heq
    -- the fields behind the first one have the same letters, so none are in `t`
    have hletters := congrArg List.flatten (List.cons.inj heq).2
    rw [← ht, fields, fields, flatten_words, flatten_words, List.filter_append t] at hletters
    have hlength := congrArg List.length hletters
    rw [List.length_append] at hlength
    have hnone : t.filter (fun c => !isSeparator c) = [] :=
      List.length_eq_zero_iff.mp (by omega)
    intro c hc
    simpa using List.filter_eq_nil_iff.mp hnone c hc
  · intro hcond
    obtain ⟨rfl, hnew⟩ := hcond
    rw [fields_renamed hefi h.blank hnew, ← ht, List.nil_append]

theorem renames_iff_of_cut (hefi : ∀ c ∈ efi, isSeparator c = false) (hline : IsLine line)
    (hcut : Cut efi boot line b p q) :
    Renames efi boot new line
        (b ++ (kernelDir efi [] ++ (new ++ ("    " : CStr) ++ (boot ++ q)))) ↔
      CutsFields efi boot new line b p := by
  apply and_congr
  · apply imp_congr_right
    intro hboot
    obtain ⟨b', x, s, q', hparts⟩ := hboot.parts hline
    obtain ⟨rfl, t, rfl, ht⟩ := hparts.cut hefi hcut
    rw [hparts.fields_eq, List.tail_cons, hparts.renamed_iff hefi ht, hparts.fields_append,
      List.length_cons]
    apply and_congr_left
    intro _
    constructor
    · rintro rfl
      rfl
    · intro hlength
      have hnone : fields t = [] := List.length_eq_zero_iff.mp (Nat.succ.inj hlength)
      exact hparts.eq_nil_of_seps ht (words_eq_nil_iff.mp hnone)
  · apply imp_congr_right
    intro _
    rw [hcut.line_eq, List.append_cancel_left_eq, List.append_cancel_left_eq,
      List.append_cancel_right_eq, eq_comm]

/-- A line is cut in one way. -/
theorem Cut.unique (hefi : ∀ c ∈ efi, isSeparator c = false) (hcut : Cut efi boot line b p q)
    {b' p' : CStr} (hcut' : Cut efi boot line b' p' q') : b' = b ∧ p' = p := by
  obtain ⟨c, e, he⟩ := List.exists_cons_of_ne_nil (isWord_kernelDir hefi).ne_nil
  have hc : isSeparator c = false := (isWord_kernelDir hefi).free c (he ▸ List.mem_cons_self)
  have hline := hcut'.line_eq.symm.trans hcut.line_eq
  rw [he, List.cons_append, List.cons_append] at hline
  obtain ⟨hb, htail⟩ := seps_append_inj
    (fun c hc => isSeparator_of_isBlank (hcut'.blank c hc))
    (fun c hc => isSeparator_of_isBlank (hcut.blank c hc)) hc hc hline
  have hrest := List.append_cancel_left (List.cons.inj htail).2
  have hle := hcut.last p' q' hrest.symm
  have hge := hcut'.last p q hrest
  exact ⟨hb, (List.append_inj hrest (Nat.le_antisymm hle hge)).1⟩

end Fields

/-! ## The callback -/

section Callback
variable {rmd : ReplaceFstabData} {line buf out : CStr} {s : Sys}

/-- With a valid expression the line is rewritten, unless the template is too long. -/
theorem getFstabLineFromRegex_eq {re : Bre}
    (hre : formFstabRegex rmd.bootMountpoint rmd.efiMountpoint = .ok re) :
    getFstabLineFromRegex rmd line buf =
      if (template (rmd.beName ++ ("    " : CStr))).length < libzeMaxPathLen then
        rewriteLine re (template (rmd.beName ++ ("    " : CStr))) line buf
      else do return (← libzeErrorSet .maxpathlen "Exceeded max path length for regex buffer.\n",
        buf) := by
  have htwo : ("\\1" : CStr) ++ rmd.beName ++ ("    \\3" : CStr) =
      template (rmd.beName ++ ("    " : CStr)) := by
    have hlast : ("    \\3" : CStr) = "    " ++ ("\\3" : CStr) := by decide +kernel
    rw [template, hlast]
    simp only [format, List.flatten_cons, List.flatten_nil, List.append_nil, List.append_assoc]
  unfold getFstabLineFromRegex
  rw [hre]
  dsimp only
  rw [libzeUtilConcat_eq _ _ _ (by decide), htwo]
  generalize template (rmd.beName ++ ("    " : CStr)) = two
  by_cases hfits : two.length < libzeMaxPathLen
  · rw [if_pos hfits, if_pos hfits, take_of_fits hfits]
    rfl
  · rw [if_neg hfits, if_neg hfits]
    rfl

/-- A line is kept, or its first two groups have the new name and the blanks between them. -/
theorem getFstabLineFromRegex_success (hefi : ∀ c ∈ rmd.efiMountpoint, Ordinary c)
    (hboot : ∀ c ∈ rmd.bootMountpoint, Ordinary c) (hname : '\\' ∉ rmd.beName)
    (hline : '\x00' ∉ line)
    (h : (getFstabLineFromRegex rmd line buf s).1 = (.success, out)) :
    (NoSplit (fstabGroups rmd.efiMountpoint rmd.bootMountpoint) line ∧ out = line) ∨
      ∃ b p q, Cut rmd.efiMountpoint rmd.bootMountpoint line b p q ∧
        out = b ++ (kernelDir rmd.efiMountpoint [] ++
          (rmd.beName ++ ("    " : CStr) ++ (rmd.bootMountpoint ++ q))) := by
  cases hre : formFstabRegex rmd.bootMountpoint rmd.efiMountpoint with
  | error err =>
    unfold getFstabLineFromRegex at h
    rw [hre] at h
    exact absurd h (fail_ne (formFstabRegex_error hre))
  | ok re =>
    rw [getFstabLineFromRegex_eq hre, formFstabRegex_ok hefi hboot hre] at h
    have hfits : (template (rmd.beName ++ ("    " : CStr))).length < libzeMaxPathLen := by
      by_contra hlong
      rw [if_neg hlong] at h
      cases h
    rw [if_pos hfits] at h
    have hmiddle : '\\' ∉ rmd.beName ++ ("    " : CStr) := by
      intro hmem
      obtain hmem | hmem := List.mem_append.mp hmem
      · exact hname hmem
      · exact absurd hmem (by decide)
    obtain hnone | ⟨before, ws, after, g, hbest, hg, hsub⟩ :=
      rewriteLine_success fstabGroups_simple hline hfits h
    · exact Or.inl hnone
    obtain ⟨b, p, q, hcut, rfl⟩ := cut_of_best hbest
    have hone : g '1' = b ++ kernelDir rmd.efiMountpoint [] := hg '1' (by decide)
    have hthree : g '3' = rmd.bootMountpoint ++ q := hg '3' (by decide)
    have hlast : (g '1').getLast? = some '-' := by
      have hdir : kernelDir rmd.efiMountpoint [] =
          (rmd.efiMountpoint ++ ("/env/" : CStr) ++ systemdbootEntryPrefix) ++ ['-'] := by
        simp [kernelDir, format]
      rw [hone, hdir, ← List.append_assoc, List.getLast?_concat]
    refine Or.inr ⟨b, p, q, hcut, ?_⟩
    rw [hsub (clean_template hmiddle ?_ ?_), substitute_template hmiddle, hone, hthree]
    · simp only [List.append_assoc]
    · intro hnil
      rw [hnil] at hlast
      cases hlast
    · intro hslash
      rw [hlast] at hslash
      cases hslash

/-- The callback keeps to the fields of a line exactly where the last occurrence of the mount
point is its second field. -/
theorem renames_iff (hefi : ∀ c ∈ rmd.efiMountpoint, IsPathChar c)
    (hboot : ∀ c ∈ rmd.bootMountpoint, IsPathChar c) (hname : '\\' ∉ rmd.beName)
    (hstring : '\x00' ∉ line) (hline : IsLine line)
    (h : (getFstabLineFromRegex rmd line buf s).1 = (.success, out)) :
    Renames rmd.efiMountpoint rmd.bootMountpoint rmd.beName line out ↔
      ∀ b p q, Cut rmd.efiMountpoint rmd.bootMountpoint line b p q →
        CutsFields rmd.efiMountpoint rmd.bootMountpoint rmd.beName line b p := by
  have hfree : ∀ c ∈ rmd.efiMountpoint, isSeparator c = false := fun c hc => (hefi c hc).2
  obtain ⟨hnone, rfl⟩ | ⟨b, p, q, hcut, rfl⟩ := getFstabLineFromRegex_success
    (fun c hc => (hefi c hc).1) (fun c hc => (hboot c hc).1) hname hstring h
  · apply iff_of_true
    · constructor
      · intro hbootline
        obtain ⟨b, x, s, q, hparts⟩ := hbootline.parts hline
        have heq := hparts.line_eq
        rw [← List.append_assoc x] at heq
        exact absurd hnone (not_noSplit heq hparts.blank)
      · exact fun _ => rfl
    · intro b p q hcut
      exact absurd hnone (not_noSplit hcut.line_eq hcut.blank)
  · rw [renames_iff_of_cut hfree hline hcut]
    constructor
    · intro hcond b' p' q' hcut'
      obtain ⟨rfl, rfl⟩ := hcut.unique hfree hcut'
      exact hcond
    · exact fun hall => hall b p q hcut

def sampleData : ReplaceFstabData := ⟨"b", "a", "/boot", "/efi"⟩

theorem sampleData_path : (∀ c ∈ sampleData.efiMountpoint, IsPathChar c) ∧
    ∀ c ∈ sampleData.bootMountpoint, IsPathChar c := by
  have hefi : sampleData.efiMountpoint.all (fun c => decide (IsPathChar c)) = true := by
    decide +kernel
  have hboot : sampleData.bootMountpoint.all (fun c => decide (IsPathChar c)) = true := by
    decide +kernel
  exact ⟨fun c hc => of_decide_eq_true (List.all_eq_true.mp hefi c hc),
    fun c hc => of_decide_eq_true (List.all_eq_true.mp hboot c hc)⟩

theorem renames_iff_sample :
    Renames "/efi" "/boot" "b" "/efi/env/org.zectl-a /boot none bind 0 0\n"
        "/efi/env/org.zectl-b    /boot none bind 0 0\n" ↔
      ∀ b p q, Cut "/efi" "/boot" "/efi/env/org.zectl-a /boot none bind 0 0\n" b p q →
        CutsFields "/efi" "/boot" "b" "/efi/env/org.zectl-a /boot none bind 0 0\n" b p :=
  @renames_iff sampleData "/efi/env/org.zectl-a /boot none bind 0 0\n" []
    "/efi/env/org.zectl-b    /boot none bind 0 0\n" (sampleSys []) sampleData_path.1
    sampleData_path.2 (by decide +kernel) (by decide +kernel)
    (by unfold IsLine; decide +kernel) (by decide +kernel)

/-- The options name the mount point again: the type, the options and what is between them are
lost. -/
theorem renames_not_when_named_again :
    ¬ ∀ (rmd : ReplaceFstabData) (line buf out : CStr) (s : Sys),
      (∀ c ∈ rmd.efiMountpoint, IsPathChar c) → (∀ c ∈ rmd.bootMountpoint, IsPathChar c) →
      '\\' ∉ rmd.beName → '\x00' ∉ line → IsLine line → line.length < libzeMaxPathLen →
      (getFstabLineFromRegex rmd line buf s).1 = (.success, out) →
      Renames rmd.efiMountpoint rmd.bootMountpoint rmd.beName line out := by
  intro hall
  let line : CStr := "/efi/env/org.zectl-a /boot none bind,x-systemd.requires-mounts-for=/boot 0 0\n"
  let out : CStr := "/efi/env/org.zectl-b    /boot 0 0\n"
  have hrenames := hall sampleData line [] out (sampleSys []) sampleData_path.1 sampleData_path.2
    (by decide +kernel) (by decide +kernel) (by unfold IsLine; decide +kernel) (by decide +kernel)
    (by decide +kernel)
  have hfields : fields line = [kernelDir "/efi" "a", "/boot", "none",
      "bind,x-systemd.requires-mounts-for=/boot", "0", "0"] := by decide +kernel
  have hout := hrenames.1 ⟨"a", _, hfields⟩
  rw [hfields] at hout
  exact absurd hout (by decide +kernel)

end Callback

end Zectl.Systemdboot.FstabLine
