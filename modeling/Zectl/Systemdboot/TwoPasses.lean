import Zectl.Lib.RegexFragments
import Zectl.Systemdboot.EntryLine
import Zectl.Systemdboot.FstabLine
import Zectl.Systemdboot.PreSnapshot

/-!
# A line that is rewritten twice

The boot files of an environment are saved with a placeholder for its name, and a new environment
is given them with its own name in its place. A line that names the environment is then rewritten
twice, where without a snapshot it is rewritten once.
-/

namespace Zectl.Systemdboot.TwoPasses

open Zectl.Lib.BasicRegex Zectl.Lib.RegexMatches Zectl.Lib.RegexGroups Zectl.Lib.RegexSyntax
open Zectl.Lib.RegexFragments Zectl.Lib.Words
open Zectl.Util.CString Zectl.Util.Replace Zectl.Zfs.System Zectl.Libze.Init Zectl.Libze.Sample
open Zectl.Util.SubexprReplace (Clean IsRef Piece pieces substitute)
open Zectl.Systemdboot.ReplaceMatched Zectl.Systemdboot.Loader Zectl.Systemdboot.Fstab
open Zectl.Systemdboot.Entry Zectl.Systemdboot.RewriteLine Zectl.Systemdboot.PreSnapshot
open Zectl.Systemdboot.EntryRegex Zectl.Systemdboot.EntryLine

/-! ## The expression for the table, whatever the mount points are -/

/-- The first and the last group: they match the same texts wherever they may match, the first one
at the beginning and up to a dash, the last one up to the end. -/
structure Framed (first last : Bre) : Prop where
  simple_first : Simple first
  simple_last : Simple last
  start : ∀ before w after, Matches first before w after →
    before = [] ∧ w.getLast? = some '-' ∧ ∀ after', Matches first [] w after'
  stop : ∀ before w after, Matches last before w after →
    after = [] ∧ ∀ before', Matches last before' w []

section Form
variable {efi boot : CStr} {re : Bre} {fs gs : List Bre}

theorem framed_behind (hfs : ∀ f ∈ fs, Free f) (hgs : ∀ g ∈ gs, Free g) :
    Framed (.seq .bol (behind fs (literal ("/env/org.zectl-" : CStr) .empty)))
      (behind gs (.seq (.rep (.sym .any) 0 none) (.seq .eol .empty))) where
  simple_first := ⟨trivial, simple_behind hfs (simple_literal trivial)⟩
  simple_last := simple_behind hgs ⟨⟨trivial, rfl, rfl⟩, trivial, trivial⟩
  start := by
    intro before w after h
    obtain ⟨u, v, rfl, hu, hv⟩ := matches_seq_iff.mp h
    obtain ⟨rfl, rfl⟩ := matches_bol_iff.mp hu
    obtain ⟨x, y, rfl, hx, hy⟩ := matches_behind_iff.mp hv
    obtain rfl := matches_text.mp hy
    refine ⟨rfl, ?_, ?_⟩
    · have hlast : ("/env/org.zectl-" : CStr) = ("/env/org.zectl" : CStr) ++ ['-'] := by
        decide
      rw [List.nil_append, hlast, ← List.append_assoc, List.getLast?_concat]
    · intro after'
      apply matches_seq_iff.mpr
      refine ⟨[], _, rfl, .bol, matches_behind_iff.mpr ⟨x, _, rfl, ?_, matches_text.mpr rfl⟩⟩
      exact hx.move (free_behind hfs (show Free .empty from trivial)) _ _
  stop := by
    intro before w after h
    obtain ⟨x, y, rfl, hx, hy⟩ := matches_behind_iff.mp h
    obtain ⟨u, v, rfl, -, hv⟩ := matches_seq_iff.mp hy
    obtain ⟨e, z, rfl, he, hz⟩ := matches_seq_iff.mp hv
    obtain ⟨rfl, hafter⟩ := matches_eol_iff.mp he
    obtain rfl := matches_empty_iff.mp hz
    refine ⟨by simpa using hafter, fun before' => matches_behind_iff.mpr ⟨x, _, rfl, ?_, ?_⟩⟩
    · exact hx.move (free_behind hgs (show Free .empty from trivial)) _ _
    · apply matches_seq_iff.mpr
      exact ⟨u, [], by simp, matches_dots, matches_seq_iff.mpr ⟨[], [], rfl, .eol, .empty⟩⟩

/-- Behind a mount point that leaves a bracket open there is a range that is the wrong way round. -/
theorem stops_between (rest : CStr) : Stops (FstabLine.betweenNames ++ rest) := by
  have hparts : FstabLine.betweenNames = '/' :: ("env/org\\.zect" : CStr) ++
      'l' :: '-' :: '\\' :: (")\\(.*\\)\\([\t ]*" : CStr) := by decide
  have hall : ("env/org\\.zect" : CStr).all (fun e => e != ']' && e != '-' && e != '[') = true := by
    decide
  have hplain : ∀ e ∈ ("env/org\\.zect" : CStr), e ≠ ']' ∧ e ≠ '-' ∧ e ≠ '[' := by
    intro e he
    simpa [and_assoc] using List.all_eq_true.mp hall e he
  have hslash : '/' ∈ ("env/org\\.zect" : CStr) := by decide
  have hlong : 2 ≤ ("env/org\\.zect" : CStr).length := by decide
  rw [hparts]
  generalize ("env/org\\.zect" : CStr) = u at hplain hslash hlong ⊢
  rw [List.append_assoc]
  have hopen : ∀ e ∈ '/' :: u, e ≠ ']' ∧ e ≠ '-' ∧ e ≠ '[' := by
    intro e he
    obtain rfl | he := List.mem_cons.mp he
    · decide
    · exact hplain e he
  constructor
  · exact unclosed_of_range hopen (by decide) (by decide) (by decide) List.mem_cons_self
      (by rw [List.length_cons]; omega)
  · exact unclosed_of_range hplain (by decide) (by decide) (by decide) hslash hlong
  · intro c hc
    obtain rfl : '/' = c := by simpa using hc
    decide

theorem stops_close : Stops (".*$\\)" : CStr) := by
  apply stops_of_not_mem
  · decide
  · intro c hc
    obtain rfl : c = '.' := by
      have hhead : (".*$\\)" : CStr).head? = some '.' := by decide
      rw [hhead] at hc
      exact (Option.some.inj hc).symm
    decide

/-- The parts of the expression where the mount points are read as any such tokens. -/
theorem parse_between {us vs : List Token} {c : Char} {dir : CStr} (hus : ∀ t ∈ us, Inner t)
    (hvs : ∀ t ∈ vs, Inner t)
    (h : parse [] ⟨[], []⟩ 0 ([[.opening, .caret, .sym blanks, .star], us, chars (c :: dir),
      [.closing, .opening, .sym .any, .star, .closing, .opening, .sym blanks, .star], vs,
      [.sym .any, .star, .dollar, .closing]] : List (List Token)).flatten = some re) :
    ∃ fs gs, (∀ f ∈ fs, Free f) ∧ (∀ g ∈ gs, Free g) ∧
      re = groups 1 [.seq .bol (behind fs (literal (c :: dir) .empty)), anything,
        behind gs (.seq (.rep (.sym .any) 0 none) (.seq .eol .empty))] := by
  have hblanks : ∀ f ∈ [Bre.rep (.sym blanks) 0 none], Free f := by
    intro f hf
    obtain rfl := List.mem_singleton.mp hf
    exact ⟨trivial, rfl, rfl⟩
  have hopen : ∀ ts, parse [] ⟨[], []⟩ 0 ([.opening, .caret, .sym blanks, .star] ++ ts) =
      parse [(⟨[], []⟩, 1)] ⟨[], [.rep (.sym blanks) 0 none] ++ [.bol]⟩ 1 ts := fun ts => rfl
  have hhead : ∀ ts, ∃ t ∈ (chars (c :: dir) ++ ts).head?, Inner t :=
    fun ts => ⟨.sym (.char c), rfl, trivial⟩
  simp only [List.flatten_cons, List.flatten_nil, List.append_nil] at h
  obtain ⟨fs, hfs, hfirst⟩ := @parse_inner [(⟨[], []⟩, 1)] [] _ [.bol] 1 us _ hus (hhead _) hblanks
    (List.cons_ne_nil _ _)
  rw [hopen, hfirst, parse_chars] at h
  let around : Open := ⟨[], [.group 2 anything,
    .group 1 (.seq .bol (behind fs (literal (c :: dir) .empty)))]⟩
  obtain ⟨gs, hgs, hlast⟩ := @parse_inner [(around, 3)] [] _ [] 3 vs
    [.sym .any, .star, .dollar, .closing] hvs ⟨.sym .any, rfl, trivial⟩ hblanks
    (List.cons_ne_nil _ _)
  refine ⟨fs, gs, hfs, hgs, ?_⟩
  have hmiddle : ∀ ts ps, parse [(⟨[], []⟩, 1)] ⟨[], ps⟩ 1 ([.closing, .opening, .sym .any, .star,
      .closing, .opening, .sym blanks, .star] ++ ts) =
      parse [(⟨[], [.group 2 anything, .group 1 (branch ps)]⟩, 3)]
        ⟨[], [.rep (.sym blanks) 0 none] ++ []⟩ 3 ts := fun ts ps => rfl
  have hbranch : branch ((((c :: dir).map Sym.char).map Bre.sym).reverse ++ (fs ++ [.bol])) =
      .seq .bol (behind fs (literal (c :: dir) .empty)) := by
    rw [branch, branch_symbols, symbols_literal, List.foldl_append]
    rfl
  rw [hmiddle, hbranch, hlast, List.append_nil] at h
  exact (Option.some.inj h).symm

/-- What the expression is when it is valid. -/
theorem regcomp_framed (hefi : '\\' ∉ efi) (hboot : '\\' ∉ boot)
    (h : regcomp (format ["\\(^[\t ]*", quoted efi, "/env/", quoted zePropNamespace,
      "-\\)\\(.*\\)\\([\t ]*", quoted boot, ".*$\\)"]) = some re) :
    ∃ first last, Framed first last ∧ re = groups 1 [first, anything, last] := by
  rw [FstabLine.fstab_pattern, regcomp] at h
  obtain ⟨ts, hts, hparse⟩ := Option.bind_eq_some_iff.mp h
  simp only [format, List.flatten_cons, List.flatten_nil, List.append_nil] at hts
  rw [FstabLine.reads_open] at hts
  obtain ⟨ts', hlex, rfl⟩ := Option.map_eq_some_iff.mp hts
  obtain ⟨us, vs, rfl, hvs, hus⟩ :=
    continues_of_lex (stops_between _) (quotesDots_quoted hefi) hlex
  rw [FstabLine.reads_between] at hvs
  obtain ⟨ts'', hlex', rfl⟩ := Option.map_eq_some_iff.mp hvs
  obtain ⟨us', vs', rfl, hvs', hus'⟩ :=
    continues_of_lex stops_close (quotesDots_quoted hboot) hlex'
  rw [FstabLine.reads_close.lex, Option.some.injEq] at hvs'
  subst hvs'
  have hdir : ("/env/org.zectl-" : CStr) = '/' :: ("env/org.zectl-" : CStr) := by decide
  rw [hdir] at hparse
  obtain ⟨fs, gs, hfs, hgs, rfl⟩ := parse_between hus hus' (by
    simpa only [List.flatten_cons, List.flatten_nil, List.append_nil, List.append_assoc]
      using hparse)
  rw [← hdir]
  exact ⟨_, _, framed_behind hfs hgs, rfl⟩

/-- `form_fstab_regex` with mount points that may be anything without a backslash. -/
theorem formFstabRegex_framed (hefi : '\\' ∉ efi) (hboot : '\\' ∉ boot)
    (h : formFstabRegex boot efi = .ok re) :
    ∃ first last, Framed first last ∧ re = groups 1 [first, anything, last] := by
  unfold formFstabRegex at h
  split at h
  · rename_i hns hefi' hboot'
    rw [(noDots_success hns).1, (noDots_success hefi').1, (noDots_success hboot').1] at h
    dsimp only at h
    split at h
    · cases h
    split at h
    · cases h
    · rename_i hcomp
      cases h
      exact regcomp_framed hefi hboot hcomp
  · cases h
  · cases h
  · cases h

end Form

/-! ## The table -/

section Table
variable {first last : Bre} {line before after u v w x : CStr} {ws : List CStr}

theorem Framed.simple (h : Framed first last) : ∀ r ∈ [first, anything, last], Simple r := by
  intro r hr
  simp only [List.mem_cons, List.not_mem_nil, or_false] at hr
  obtain rfl | rfl | rfl := hr
  · exact h.simple_first
  · exact simple_anything
  · exact h.simple_last

theorem Framed.splits_iff (h : Framed first last) : Splits [first, anything, last] before ws after ↔
    before = [] ∧ after = [] ∧ ∃ u v w, ws = [u, v, w] ∧ Matches first [] u [] ∧
      Matches last [] w [] := by
  constructor
  · intro hsplit
    obtain ⟨u, vs, rfl, hu, hsplit⟩ := splits_cons_iff.mp hsplit
    obtain ⟨v, us, rfl, -, hsplit⟩ := splits_cons_iff.mp hsplit
    obtain ⟨w, ts, rfl, hw, hsplit⟩ := splits_cons_iff.mp hsplit
    obtain rfl := splits_nil_iff.mp hsplit
    obtain ⟨rfl, -, hfirst⟩ := h.start _ _ _ hu
    obtain ⟨hafter, hlast⟩ := h.stop _ _ _ hw
    exact ⟨rfl, by simpa using hafter, u, v, w, rfl, hfirst [], hlast []⟩
  · intro hsplit
    obtain ⟨rfl, rfl, u, v, w, rfl, hu, hw⟩ := hsplit
    refine .cons ?_ (.cons matches_anything (.cons ?_ .nil))
    · exact (h.start _ _ _ hu).2.2 _
    · exact (h.stop _ _ _ hw).2 _

/-- A text without a dash between the first and the last group takes the place of the second one:
if the first group went beyond it, the second one could have been longer before. -/
theorem Framed.best_again (h : Framed first last)
    (hbest : Best [first, anything, last] line [] [u, v, w] []) (hx : '-' ∉ x)
    (hbest' : Best [first, anything, last] (u ++ (x ++ w)) before ws after) :
    before = [] ∧ ws = [u, x, w] ∧ after = [] := by
  obtain ⟨-, -, u₀, v₀, w₀, hws, hu, hw⟩ := h.splits_iff.mp hbest.splits
  obtain ⟨rfl, rfl, rfl, -⟩ : u = u₀ ∧ v = v₀ ∧ w = w₀ ∧ True := by simpa using hws
  obtain ⟨rfl, rfl, u', v', w', rfl, hu', hw'⟩ := h.splits_iff.mp hbest'.splits
  have hinput := hbest'.input_eq
  rw [List.nil_append, List.append_nil, FstabLine.flatten_three] at hinput
  -- the last group cannot begin later in the first line
  have hlatest : ∀ t, w = t ++ w' → t = [] := by
    intro t ht
    have hle := hbest.greedy [u, v ++ t, w']
      (by rw [FstabLine.flatten_three, FstabLine.flatten_three, ht, List.append_assoc])
      (h.splits_iff.mpr ⟨rfl, rfl, u, v ++ t, w', rfl, hu, hw'⟩)
    simp only [NoLonger, List.length_append] at hle
    exact List.length_eq_zero_iff.mp (by omega)
  have hle := hbest'.greedy [u, x, w]
    (by rw [FstabLine.flatten_three, FstabLine.flatten_three, hinput])
    (h.splits_iff.mpr ⟨rfl, rfl, u, x, w, rfl, hu, hw⟩)
  refine ⟨rfl, ?_, rfl⟩
  obtain hlt | ⟨heq, hle⟩ := hle
  · obtain ⟨t, rfl, ht⟩ | ⟨t, rfl, -⟩ := List.append_eq_append_iff.mp hinput
    · have hne : t ≠ [] := by
        rintro rfl
        simp at hlt
      have hdash : '-' ∈ t := by
        have hend := (h.start _ _ _ hu').2.1
        rw [List.getLast?_append_of_ne_nil _ hne] at hend
        exact List.mem_of_getLast? hend
      apply absurd _ hx
      obtain ⟨r, rfl, hr⟩ | ⟨r, rfl, -⟩ := List.append_eq_append_iff.mp ht
      · have hnil := hlatest (r ++ v') (by rw [hr, List.append_assoc])
        rwa [(List.append_eq_nil_iff.mp hnil).1, List.append_nil] at hdash
      · exact List.mem_append_left _ hdash
    · rw [List.length_append] at hlt
      omega
  · obtain ⟨rfl, htail⟩ := List.append_inj hinput heq
    obtain hlt | ⟨heq', -⟩ := hle
    · obtain ⟨t, rfl, ht⟩ | ⟨t, rfl, -⟩ := List.append_eq_append_iff.mp htail
      · rw [hlatest t ht, List.append_nil] at hlt
        exact absurd hlt (lt_irrefl _)
      · rw [List.length_append] at hlt
        omega
    · obtain ⟨rfl, rfl⟩ := List.append_inj htail heq'
      rfl

/-- In the new line the three groups are found where they were put. -/
theorem Framed.best_of_best (h : Framed first last)
    (hbest : Best [first, anything, last] line [] [u, v, w] []) (hx : '-' ∉ x) :
    Best [first, anything, last] (u ++ (x ++ w)) [] [u, x, w] [] := by
  obtain ⟨-, hnone⟩ | ⟨before, ws, after, hbest', -⟩ :=
    @regexec_groups _ (u ++ (x ++ w)) h.simple
  · obtain ⟨-, -, u₀, v₀, w₀, hws, hu, hw⟩ := h.splits_iff.mp hbest.splits
    obtain ⟨rfl, rfl, rfl, -⟩ : u = u₀ ∧ v = v₀ ∧ w = w₀ ∧ True := by simpa using hws
    apply absurd _ (hnone [] [u, x, w] [] _)
    · exact h.splits_iff.mpr ⟨rfl, rfl, u, x, w, rfl, hu, hw⟩
    · rw [FstabLine.flatten_three, List.nil_append, List.append_nil]
  · obtain ⟨rfl, rfl, rfl⟩ := h.best_again hbest hx hbest'
    exact hbest'

/-- What the first and the third group are in both lines is put together in the same way. -/
theorem same_template {middle : CStr} {ws' : List CStr} (hmiddle : '\\' ∉ middle)
    (hone : ws[0]? = ws'[0]?) (hthree : ws[2]? = ws'[2]?) : ∀ d,
    Piece.ref d ∈ pieces (RewriteLine.template middle) → IsRef d ∧
      ws[d.toNat - asciiOffset - 1]? = ws'[d.toNat - asciiOffset - 1]? := by
  intro d hd
  rw [pieces_template hmiddle] at hd
  obtain rfl | rfl : d = '1' ∨ d = '3' := by simpa using hd
  · exact ⟨by decide, hone⟩
  · exact ⟨by decide, hthree⟩

variable {saved new efi boot active active' active'' out buf buf' : CStr} {s s' : Sys}

/-- A new name is put into a saved line as it is put into the line itself. -/
theorem getFstabLineFromRegex_again (hefi : '\\' ∉ efi) (hboot : '\\' ∉ boot)
    (hline : '\x00' ∉ line) (hsaved : ∀ c ∈ saved, c ≠ '-' ∧ c ≠ '\\' ∧ c ≠ '\x00')
    (hnew : '\\' ∉ new)
    (h : (getFstabLineFromRegex ⟨saved, active, boot, efi⟩ line buf s).1 = (.success, out)) :
    (getFstabLineFromRegex ⟨new, active', boot, efi⟩ out buf' s').1 =
      (getFstabLineFromRegex ⟨new, active'', boot, efi⟩ line buf' s').1 := by
  cases hre : formFstabRegex boot efi with
  | error err =>
    unfold getFstabLineFromRegex at h
    rw [hre] at h
    exact absurd h (fail_ne (formFstabRegex_error hre))
  | ok re =>
    obtain ⟨first, last, hframed, rfl⟩ := formFstabRegex_framed hefi hboot hre
    rw [FstabLine.getFstabLineFromRegex_eq hre] at h ⊢
    rw [FstabLine.getFstabLineFromRegex_eq hre]
    dsimp only at h ⊢
    have hblank : ∀ name : CStr, '\\' ∉ name → '\\' ∉ name ++ ("    " : CStr) := by
      intro name hname hmem
      obtain hmem | hmem := List.mem_append.mp hmem
      · exact hname hmem
      · exact absurd hmem (by decide)
    have hfits : (RewriteLine.template (saved ++ ("    " : CStr))).length < libzeMaxPathLen := by
      by_contra hlong
      rw [if_neg hlong] at h
      cases h
    rw [if_pos hfits] at h
    obtain ⟨-, rfl⟩ | ⟨before, ws, after, g, hbest, hg, hsub⟩ :=
      rewriteLine_success hframed.simple hline hfits h
    · rfl
    obtain ⟨rfl, rfl, u, v, w, rfl, hu, -⟩ := hframed.splits_iff.mp hbest.splits
    -- the first group ends in a dash
    have hclean : ∀ {name x : CStr}, '\\' ∉ name → ∀ g, (∀ d, IsRef d → g d = textOf [u, x, w] d) →
        Clean g [] (pieces (RewriteLine.template (name ++ ("    " : CStr)))) := by
      intro name x hname g hg
      have hlast : (g '1').getLast? = some '-' := by
        rw [hg '1' (by decide)]
        exact (hframed.start _ _ _ hu).2.1
      apply clean_template (hblank name hname)
      · intro hnil
        rw [hnil] at hlast
        cases hlast
      · intro hslash
        rw [hlast] at hslash
        cases hslash
    have hescape : '\\' ∉ saved := fun hmem => (hsaved _ hmem).2.1 rfl
    have hout : out = u ++ (saved ++ ("    " : CStr) ++ w) := by
      rw [hsub (hclean hescape g hg), substitute_template (hblank saved hescape),
        hg '1' (by decide), hg '3' (by decide)]
      rfl
    have hdash : '-' ∉ saved ++ ("    " : CStr) := by
      intro hmem
      obtain hmem | hmem := List.mem_append.mp hmem
      · exact (hsaved _ hmem).1 rfl
      · exact absurd hmem (by decide)
    have hzero : '\x00' ∉ out := by
      have hparts := hbest.input_eq
      rw [List.nil_append, List.append_nil, FstabLine.flatten_three] at hparts
      rw [hparts] at hline
      rw [hout]
      simp only [List.mem_append, not_or] at hline ⊢
      exact ⟨hline.1, ⟨fun hmem => (hsaved _ hmem).2.2 rfl, by decide⟩, hline.2.2⟩
    subst hout
    by_cases hfits' : (RewriteLine.template (new ++ ("    " : CStr))).length < libzeMaxPathLen
    · rw [if_pos hfits', if_pos hfits']
      exact rewriteLine_congr hframed.simple hframed.simple hzero hline
        (hframed.best_of_best hbest hdash) hbest (hclean hnew) (same_template (hblank new hnew) rfl rfl)
    · rw [if_neg hfits', if_neg hfits']

end Table

/-! ## Where the placeholder is -/

section Placeholder
variable {P : Pattern} {d x y x' y' h p q pre' h' p' m' q' : CStr}

theorem placeholder_eq : placeholder = '%' :: ("ZECTLBE%" : CStr) := by decide

theorem placeholder_ordinary : ∀ c ∈ placeholder, Ordinary c := by
  have hall : placeholder.all (fun c => decide (Ordinary c)) = true := by decide
  intro c hc
  exact of_decide_eq_true (List.all_eq_true.mp hall c hc)

/-- In a text without a percent sign of its own it is in one place. -/
theorem placeholder_once (hx : '%' ∉ x) (hy : '%' ∉ y)
    (heq : x ++ (placeholder ++ y) = x' ++ (placeholder ++ y')) : x = x' ∧ y = y' := by
  have hcount := congrArg (List.count '%') heq
  simp only [List.count_append, List.count_eq_zero.mpr hx, List.count_eq_zero.mpr hy] at hcount
  have hx' : '%' ∉ x' := List.count_eq_zero.mp (by omega)
  have hfree : ∀ {z : CStr}, '%' ∉ z → ∀ c ∈ z, (c != '%') = true := by
    intro z hz c hc
    rw [bne_iff_ne]
    rintro rfl
    exact hz hc
  have hcons := heq
  rw [placeholder_eq, List.cons_append, List.cons_append] at hcons
  obtain ⟨rfl, -⟩ := seps_append_inj (hfree hx) (hfree hx') (by decide) (by decide) hcons
  exact ⟨rfl, List.append_cancel_left (List.append_cancel_left heq)⟩

/-- Any parts with it have it where it was put. -/
theorem parts_saved (hP : ∀ m, P.middle m → m = d ++ placeholder) (hx : '%' ∉ x) (hq : '%' ∉ q)
    (hparts : P.Parts (x ++ (placeholder ++ q)) pre' h' p' m' q') :
    x = pre' ++ (h' ++ (p' ++ d)) ∧ q = q' := by
  obtain rfl := hP m' hparts.middle
  apply placeholder_once hx hq
  rw [hparts.line_eq]
  simp only [List.append_assoc]

/-- A line that begins with the head is cut at it. -/
theorem cut_saved (hP : ∀ m, P.middle m ↔ m = d ++ placeholder) (hx : '%' ∉ h ++ (p ++ d))
    (hq : '%' ∉ q) (hhead : P.head h) (hrest : P.rest q) :
    P.Cut (h ++ (p ++ (d ++ placeholder ++ q))) [] h p (d ++ placeholder) q := by
  refine ⟨⟨rfl, hhead, (hP _).mpr rfl, hrest⟩, fun _ _ _ _ _ _ => Nat.zero_le _, ?_⟩
  intro p' m' q' hparts
  have hline : h ++ (p ++ (d ++ placeholder ++ q)) = h ++ (p ++ d) ++ (placeholder ++ q) := by
    simp only [List.append_assoc]
  rw [hline] at hparts
  obtain ⟨hparts, -⟩ := parts_saved (fun m hm => (hP m).mp hm) hx hq hparts
  rw [List.nil_append, List.append_cancel_left_eq, List.append_cancel_right_eq] at hparts
  rw [hparts]

/-- Where there is no percent sign it is not found. -/
theorem not_occurs_free (hP : ∀ m, P.middle m → m = d ++ placeholder) (hx : '%' ∉ x) :
    ¬ P.Occurs x := by
  rintro ⟨pre, h, p, m, q, hparts⟩
  obtain rfl := hP m hparts.middle
  apply hx
  rw [hparts.line_eq, placeholder_eq]
  simp

theorem title_saved (m : CStr) : (titlePattern placeholder).middle m ↔ m = [] ++ placeholder := by
  have hdots : placeholder.count '.' = 0 := by decide
  constructor
  · intro hm
    exact eq_of_dotted hm (by rw [List.nil_append, hdots]; exact Nat.zero_le _)
  · rintro rfl
    exact List.forall₂_same.mpr fun c _ => Or.inr rfl

variable {root active line pre : CStr}

/-- A title in front of the placeholder was in front of the name. -/
theorem title_of_saved (hx : '%' ∉ x) (hq : '%' ∉ q) (hline : line = pre ++ (x ++ (active ++ q)))
    (hoccurs : (titlePattern placeholder).Occurs (x ++ (placeholder ++ q))) :
    (titlePattern active).Occurs line := by
  obtain ⟨pre', h', p', m', q', hparts⟩ := hoccurs
  obtain ⟨rfl, -⟩ := parts_saved (fun m hm => (title_saved m).mp hm) hx hq hparts
  refine ⟨pre ++ pre', h', p', active, q, ?_, hparts.head, ?_, trivial⟩
  · rw [hline]
    simp only [List.append_assoc, List.append_nil]
  · exact List.forall₂_same.mpr fun c _ => Or.inr rfl

/-- What is in front of a name in a parameter is not what is in front of one in a path. -/
theorem linux_not_saved (hx : '%' ∉ x ++ datasetDir root) (hq : '%' ∉ q) :
    ¬ (linuxPattern placeholder).Occurs (x ++ datasetDir root ++ (placeholder ++ q)) := by
  rintro ⟨pre', h', p', m', q', hparts⟩
  obtain ⟨heq, -⟩ := parts_saved (d := "org.zectl-") (fun m hm => hm) hx hq hparts
  have hdir : ("org.zectl-" : CStr) = ("org.zectl" : CStr) ++ ['-'] := by decide
  have hslash : ("/" : CStr) = ['/'] := by decide
  have hlast := congrArg List.getLast? heq
  rw [hdir, datasetDir, hslash, ← List.append_assoc, List.getLast?_concat, ← List.append_assoc,
    ← List.append_assoc, ← List.append_assoc, List.getLast?_concat] at hlast
  cases hlast

end Placeholder

/-! ## The entry -/

section Entry
variable {P P' : Pattern} {rs rs' : List Bre} {texts texts' : CStr → CStr → CStr → CStr → List CStr}
  {line line' template pre pre' h h' p p' m m' q q' buf : CStr} {s : Sys}

theorem best_of_cut (hP : Follows rs P texts) (hkeyed : Keyed P) (hcut : P.Cut line pre h p m q) :
    ∃ after, Best rs line pre (texts h p m q) after := by
  obtain ⟨-, hnone⟩ | ⟨before, ws, after, hbest, -⟩ := @regexec_groups _ line hP.simple
  · exact absurd (occurs_of_cut hcut) (hP.noSplit_iff.mp hnone)
  · obtain ⟨h', p', m', q', hcut', rfl⟩ := hP.cut_of_best hbest
    obtain ⟨rfl, rfl, rfl, rfl, rfl⟩ := hkeyed.unique hcut hcut'
    exact ⟨after, hbest⟩

/-- Two lines that are cut so that the groups that the template refers to hold the same. -/
theorem rewriteLine_cuts (hP : Follows rs P texts) (hP' : Follows rs' P' texts')
    (hkeyed : Keyed P) (hkeyed' : Keyed P') (hline : '\x00' ∉ line) (hline' : '\x00' ∉ line')
    (hcut : P.Cut line pre h p m q) (hcut' : P'.Cut line' pre' h' p' m' q')
    (hclean : ∀ g, (∀ d, IsRef d → g d = textOf (texts h p m q) d) → Clean g [] (pieces template))
    (hsame : ∀ d, Piece.ref d ∈ pieces template → IsRef d ∧
      (texts h p m q)[d.toNat - asciiOffset - 1]? =
        (texts' h' p' m' q')[d.toNat - asciiOffset - 1]?) :
    (rewriteLine (groups 1 rs) template line buf s).1 =
      (rewriteLine (groups 1 rs') template line' buf s).1 := by
  obtain ⟨after, hbest⟩ := best_of_cut hP hkeyed hcut
  obtain ⟨after', hbest'⟩ := best_of_cut hP' hkeyed' hcut'
  exact rewriteLine_congr hP.simple hP'.simple hline hline' hbest hbest' hclean hsame

/-- A line in which nothing is found is kept by either. -/
theorem rewriteLine_kept (hP : Follows rs P texts) (hP' : Follows rs' P' texts')
    (hline : '\x00' ∉ line) (hno : ¬ P.Occurs line) (hno' : ¬ P'.Occurs line) :
    (rewriteLine (groups 1 rs) template line buf s).1 =
      (rewriteLine (groups 1 rs') template line buf s).1 := by
  have hnone : regexec (groups 1 rs) line = none :=
    Option.not_isSome_iff_eq_none.mp fun hsome => hno (hP.isSome_iff.mp hsome)
  have hnone' : regexec (groups 1 rs') line = none :=
    Option.not_isSome_iff_eq_none.mp fun hsome => hno' (hP'.isSome_iff.mp hsome)
  unfold rewriteLine
  rw [cString_eq_self hline, hnone, hnone']

theorem same_pathTemplate {name : CStr} {ws ws' : List CStr} (hname : '\\' ∉ name)
    (hone : ws[0]? = ws'[0]?) (htwo : ws[1]? = ws'[1]?) (hthree : ws[2]? = ws'[2]?)
    (hfive : ws[4]? = ws'[4]?) : ∀ d, Piece.ref d ∈ pieces (pathTemplate name) → IsRef d ∧
      ws[d.toNat - asciiOffset - 1]? = ws'[d.toNat - asciiOffset - 1]? := by
  intro d hd
  rw [pieces_pathTemplate hname] at hd
  obtain rfl | rfl | rfl | rfl : d = '1' ∨ d = '2' ∨ d = '3' ∨ d = '5' := by simpa using hd
  · exact ⟨by decide, hone⟩
  · exact ⟨by decide, htwo⟩
  · exact ⟨by decide, hthree⟩
  · exact ⟨by decide, hfive⟩

end Entry

section Forms
variable {root active : CStr} {re : Bre}

theorem formLinuxRegex_saved :
    formLinuxRegex placeholder = .ok (groups 1 (linuxGroups placeholder)) := by
  have hvalid : (formLinuxRegex placeholder).toOption.isSome = true := by decide +kernel
  cases hre : formLinuxRegex placeholder with
  | error err =>
    rw [hre] at hvalid
    cases hvalid
  | ok re => rw [formLinuxRegex_ok placeholder_ordinary hre]

theorem formTitleRegex_saved :
    formTitleRegex placeholder = .ok (groups 1 (titleGroups placeholder)) := by
  have hvalid : (formTitleRegex placeholder).toOption.isSome = true := by decide +kernel
  cases hre : formTitleRegex placeholder with
  | error err =>
    rw [hre] at hvalid
    cases hvalid
  | ok re => rw [formTitleRegex_ok placeholder_ordinary hre]

/-- Where the root fits with some name it does with the placeholder. -/
theorem formDatasetRegex_saved (hroot : ∀ c ∈ root, Ordinary c)
    (h : formDatasetRegex root active = .ok re) :
    formDatasetRegex root placeholder = .ok (groups 1 (datasetGroups root placeholder)) := by
  have hname : noDots placeholder = (.success, quoted placeholder) := by decide
  have hdirectory : noDots root = (.success, quoted root) ∧
      (quoted root).length < zfsMaxDatasetNameLen := by
    unfold formDatasetRegex at h
    split at h
    · rename_i hroot'
      obtain ⟨rfl, hfits⟩ := noDots_success hroot'
      exact ⟨hroot', hfits⟩
    · cases h
    · cases h
  obtain ⟨hdots, hlength⟩ := hdirectory
  unfold formDatasetRegex compileRegex
  rw [hname, hdots]
  dsimp only
  rw [regcomp_dataset hroot placeholder_ordinary, if_neg]
  have hopen : ("\\(options.*zfs=" : CStr).length = 15 := by decide
  have hslash : ("/\\)\\(" : CStr).length = 5 := by decide
  have hquoted : (quoted placeholder).length = 9 := by decide
  have hclose : ("\\)\\(.*\\)" : CStr).length = 8 := by decide
  have hmax : zfsMaxDatasetNameLen = 256 := rfl
  have hregex : regexBuflen = 512 := rfl
  simp only [format, List.flatten_cons, List.flatten_nil, List.append_nil, List.length_append,
    hopen, hslash, hquoted, hclose]
  omega

end Forms

section Again
variable {h : Handle} {P : Pattern} {root active new line out buf buf' pre k p m q : CStr} {c : Char}
  {s s' : Sys}

theorem not_mem_parts (hparts : P.Parts line pre k p m q) (hc : c ∉ line) :
    c ∉ k ∧ c ∉ p ∧ c ∉ m ∧ c ∉ q := by
  rw [hparts.line_eq] at hc
  simp only [List.mem_append, not_or] at hc
  exact hc.2

theorem title_again (hnew : '\\' ∉ new) (hline : '\x00' ∉ line) (hpercent : '%' ∉ line)
    (hescape : '\\' ∉ line) (hcut : (titlePattern active).Cut line pre k p m q) :
    (rewriteEntry root placeholder new (k ++ (p ++ (placeholder ++ q))) buf s).1 =
      (rewriteEntry root active new line buf s).1 := by
  obtain ⟨hk, hp, -, hq⟩ := not_mem_parts hcut.toParts hpercent
  have hcut' : (titlePattern placeholder).Cut (k ++ (p ++ (placeholder ++ q))) [] k p
      placeholder q := by
    apply cut_saved (d := []) title_saved _ hq hcut.head trivial
    rw [List.append_nil, List.mem_append, not_or]
    exact ⟨hk, hp⟩
  have hline' : '\x00' ∉ k ++ (p ++ (placeholder ++ q)) := by
    obtain ⟨hk, hp, -, hq⟩ := not_mem_parts hcut.toParts hline
    simp only [List.mem_append, not_or]
    exact ⟨hk, hp, by decide, hq⟩
  have hescapes : ¬ Escapes p new := fun hname =>
    (not_mem_parts hcut.toParts hescape).2.1 (List.mem_of_getLast? hname.1)
  rw [rewriteEntry_title hline (occurs_of_cut hcut), rewriteEntry_title hline' (occurs_of_cut hcut')]
  exact rewriteLine_cuts titleGroups_follows titleGroups_follows title_keyed title_keyed hline'
    hline hcut' hcut (fun g hg => title_clean hcut' hnew hg hescapes) (same_template hnew rfl rfl)

/-- What is in front of the name in the middle of a cut stays there. -/
theorem saved_parts {Q : Pattern} {d : CStr} (hP : ∀ m, P.middle m → m = d ++ active)
    (hQ : ∀ m, Q.middle m ↔ m = d ++ placeholder) (hpercent : '%' ∉ line)
    (hcut : P.Cut line pre k p m q) (hhead : Q.head k) (hrest : Q.rest q) :
    Q.Cut (k ++ (p ++ (d ++ placeholder ++ q))) [] k p (d ++ placeholder) q ∧
      ('\x00' ∉ line → '\x00' ∉ k ++ (p ++ (d ++ placeholder ++ q))) ∧
      ((titlePattern placeholder).Occurs (k ++ (p ++ (d ++ placeholder ++ q))) →
        (titlePattern active).Occurs line) := by
  obtain rfl := hP m hcut.middle
  have hfree : ∀ c, c ∉ line → c ∉ k ++ (p ++ d) ∧ c ∉ q := by
    intro c hc
    obtain ⟨hk, hp, hm, hq⟩ := not_mem_parts hcut.toParts hc
    simp only [List.mem_append, not_or] at hm ⊢
    exact ⟨⟨hk, hp, hm.1⟩, hq⟩
  obtain ⟨hx, hq⟩ := hfree '%' hpercent
  refine ⟨cut_saved hQ hx hq hhead hrest, ?_, ?_⟩
  · intro hline
    obtain ⟨hx, hq⟩ := hfree _ hline
    simp only [List.mem_append, not_or] at hx ⊢
    exact ⟨hx.1, hx.2.1, ⟨hx.2.2, by decide⟩, hq⟩
  · intro hoccurs
    have hline : line = pre ++ (k ++ (p ++ d) ++ (active ++ q)) := by
      rw [hcut.line_eq]
      simp only [List.append_assoc]
    apply title_of_saved hx hq hline
    simp only [List.append_assoc] at hoccurs ⊢
    exact hoccurs

theorem linux_again (hnew : '\\' ∉ new) (hline : '\x00' ∉ line) (hpercent : '%' ∉ line)
    (hno : ¬ (titlePattern active).Occurs line)
    (hcut : (linuxPattern active).Cut line pre k p m q) :
    (rewriteEntry root placeholder new (k ++ (p ++ (kernelName placeholder ++ q))) buf s).1 =
      (rewriteEntry root active new line buf s).1 := by
  obtain ⟨hcut', hzero, htitle⟩ := saved_parts (Q := linuxPattern placeholder)
    (fun m hm => hm) (fun m => Iff.rfl) hpercent hcut hcut.head hcut.rest
  have hno' := fun hoccurs => hno (htitle hoccurs)
  have hnew' := @rewriteEntry_linux placeholder new _ buf root (hzero hline) hno'
    (occurs_of_cut hcut')
  rw [rewriteEntry_linux hline hno (occurs_of_cut hcut)]
  refine (congrArg (fun r => (r s).1) hnew').trans ?_
  exact rewriteLine_cuts linuxGroups_follows linuxGroups_follows linux_keyed linux_keyed
    (hzero hline) hline hcut' hcut (fun g hg => linux_clean hcut' hnew hg)
    (same_pathTemplate hnew rfl rfl rfl rfl)

theorem dataset_again (hnew : '\\' ∉ new) (hline : '\x00' ∉ line) (hpercent : '%' ∉ line)
    (hno : ¬ (titlePattern active).Occurs line) (hno' : ¬ (linuxPattern active).Occurs line)
    (hcut : (datasetPattern root active).Cut line pre k p m q) :
    (rewriteEntry root placeholder new (k ++ (p ++ (datasetDir root ++ placeholder ++ q))) buf s).1 =
      (rewriteEntry root active new line buf s).1 := by
  obtain ⟨hcut', hzero, htitle⟩ := saved_parts (Q := datasetPattern root placeholder)
    (fun m hm => hm) (fun m => Iff.rfl) hpercent hcut hcut.head trivial
  have hlinux : ¬ (linuxPattern placeholder).Occurs
      (k ++ (p ++ (datasetDir root ++ placeholder ++ q))) := by
    obtain rfl : m = datasetDir root ++ active := hcut.middle
    obtain ⟨hk, hp, hm, hq⟩ := not_mem_parts hcut.toParts hpercent
    have hx : '%' ∉ k ++ p ++ datasetDir root := by
      simp only [List.mem_append, not_or] at hm ⊢
      exact ⟨⟨hk, hp⟩, hm.1⟩
    have heq : k ++ (p ++ (datasetDir root ++ placeholder ++ q)) =
        k ++ p ++ datasetDir root ++ (placeholder ++ q) := by
      simp only [List.append_assoc]
    rw [heq]
    exact linux_not_saved hx hq
  rw [rewriteEntry_dataset hline hno hno',
    rewriteEntry_dataset (hzero hline) (fun hoccurs => hno (htitle hoccurs)) hlinux]
  exact rewriteLine_cuts datasetGroups_follows datasetGroups_follows dataset_keyed dataset_keyed
    (hzero hline) hline hcut' hcut (fun g hg => dataset_clean hnew hg) (same_template hnew rfl rfl)

theorem kept_again (hline : '\x00' ∉ line) (hpercent : '%' ∉ line)
    (hno : ¬ (titlePattern active).Occurs line) (hno' : ¬ (linuxPattern active).Occurs line)
    (hno'' : ¬ (datasetPattern root active).Occurs line) :
    (rewriteEntry root placeholder new line buf s).1 = (rewriteEntry root active new line buf s).1 := by
  have htitle : ¬ (titlePattern placeholder).Occurs line :=
    not_occurs_free (fun m hm => (title_saved m).mp hm) hpercent
  have hlinux : ¬ (linuxPattern placeholder).Occurs line :=
    not_occurs_free (d := "org.zectl-") (fun m hm => hm) hpercent
  have hdataset : ¬ (datasetPattern root placeholder).Occurs line :=
    not_occurs_free (d := datasetDir root) (fun m hm => hm) hpercent
  rw [rewriteEntry_dataset hline htitle hlinux, rewriteEntry_dataset hline hno hno']
  exact rewriteLine_kept datasetGroups_follows datasetGroups_follows hline hdataset hno''

/-- A new name is put into a saved line as it is put into the line itself: the placeholder is where
the name was found, and the expressions that found nothing before find nothing now. -/
theorem getCfgLineFromRegex_again (hactive : ∀ c ∈ active, Ordinary c)
    (hroot : ∀ c ∈ h.envRoot, Ordinary c) (hnew : '\\' ∉ new) (hline : '\x00' ∉ line)
    (hpercent : '%' ∉ line) (hescape : '\\' ∉ line)
    (hr : (getCfgLineFromRegex h placeholder active line buf s).1 = (.success, out)) :
    (getCfgLineFromRegex h new placeholder out buf' s').1 =
      (getCfgLineFromRegex h new active line buf' s').1 := by
  obtain ⟨reLinux, reTitle, reDataset, hlinux, htitle, hdataset⟩ := forms_of_success hr
  have hleaves := getCfgLineFromRegex_leaves hactive hroot (by decide) hline hr
  rw [getCfgLineFromRegex_eq placeholder_ordinary hroot formLinuxRegex_saved formTitleRegex_saved
    (formDatasetRegex_saved hroot hdataset),
    getCfgLineFromRegex_eq hactive hroot hlinux htitle hdataset]
  by_cases hfits : (RewriteLine.template new).length < libzeMaxPathLen ∧
      (pathTemplate new).length < libzeMaxPathLen
  · rw [if_pos hfits, if_pos hfits]
    cases hleaves with
    | title hcut hout =>
      have hescapes : ¬ Escapes _ placeholder := fun hname =>
        (not_mem_parts hcut.toParts hescape).2.1 (List.mem_of_getLast? hname.1)
      rw [hout hescapes]
      exact title_again hnew hline hpercent hescape hcut
    | linux hno hcut => exact linux_again hnew hline hpercent hno hcut
    | dataset hno hno' hcut => exact dataset_again hnew hline hpercent hno hno' hcut
    | kept hno hno' hno'' => exact kept_again hline hpercent hno hno' hno''
  · rw [if_neg hfits, if_neg hfits]

/-- Whenever a line can be saved, an environment that gets it from the snapshot has the line that it
would have got without one, or the same failure. -/
theorem saved_agrees {efi boot : CStr} (hactive : ∀ c ∈ active, Ordinary c)
    (hnew : ∀ c ∈ new, Ordinary c) (hroot : ∀ c ∈ h.envRoot, Ordinary c) (hefi : '\\' ∉ efi)
    (hboot : '\\' ∉ boot) (hline : '\x00' ∉ line) (hpercent : '%' ∉ line) (hescape : '\\' ∉ line) :
    (∀ out buf buf' s s', (getCfgLineFromRegex h placeholder active line buf s).1 = (.success, out) →
      (getCfgLineFromRegex h new placeholder out buf' s').1 =
        (getCfgLineFromRegex h new active line buf' s').1) ∧
    ∀ activeBe activeBe' activeBe'' out buf buf' s s',
      (getFstabLineFromRegex ⟨placeholder, activeBe, boot, efi⟩ line buf s).1 = (.success, out) →
      (getFstabLineFromRegex ⟨new, activeBe', boot, efi⟩ out buf' s').1 =
        (getFstabLineFromRegex ⟨new, activeBe'', boot, efi⟩ line buf' s').1 := by
  have hname : '\\' ∉ new := fun hmem => (hnew _ hmem).2.1 rfl
  have hall : placeholder.all (fun c => c != '-' && c != '\\' && c != '\x00') = true := by
    decide +kernel
  have hsaved : ∀ c ∈ placeholder, c ≠ '-' ∧ c ≠ '\\' ∧ c ≠ '\x00' := by
    intro c hc
    simpa [and_assoc] using List.all_eq_true.mp hall c hc
  constructor
  · intro out buf buf' s s' hr
    exact getCfgLineFromRegex_again hactive hroot hname hline hpercent hescape hr
  · intro activeBe activeBe' activeBe'' out buf buf' s s' hr
    exact getFstabLineFromRegex_again hefi hboot hline hsaved hname hr

theorem saved_agrees_sample :
    (∀ out buf buf' s s', (getCfgLineFromRegex (sampleHandle none true) placeholder "a" "title a\n"
        buf s).1 = (.success, out) →
      (getCfgLineFromRegex (sampleHandle none true) "b" placeholder out buf' s').1 =
        (getCfgLineFromRegex (sampleHandle none true) "b" "a" "title a\n" buf' s').1) ∧
    ∀ activeBe activeBe' activeBe'' out buf buf' s s',
      (getFstabLineFromRegex ⟨placeholder, activeBe, "/boot", "/efi"⟩ "title a\n" buf s).1 =
        (.success, out) →
      (getFstabLineFromRegex ⟨"b", activeBe', "/boot", "/efi"⟩ out buf' s').1 =
        (getFstabLineFromRegex ⟨"b", activeBe'', "/boot", "/efi"⟩ "title a\n" buf' s').1 :=
  saved_agrees (fun c hc => (sample_names.1 c hc).1) (fun c hc => (sample_names.2.1 c hc).1)
    sample_names.2.2 (by decide +kernel) (by decide +kernel) (by decide +kernel) (by decide +kernel)
    (by decide +kernel)

/-- A title that has room for the placeholder, but not for what is left of the template with it. -/
def longTitle : CStr := "title " ++ (List.replicate 238 'x' ++ ("a\n" : CStr))

theorem title_cut (p : CStr) : (titlePattern "a").Cut (("title" : CStr) ++ (p ++ ("a\n" : CStr))) []
    "title" p "a" "\n" where
  line_eq := rfl
  head := rfl
  middle := .cons (.inr rfl) .nil
  rest := trivial
  first _ _ _ _ _ _ := Nat.zero_le _
  last p' m' q' hparts := by
    obtain ⟨hline, -, hmiddle, -⟩ := hparts
    rw [List.nil_append, List.append_cancel_left_eq] at hline
    obtain ⟨c, rfl, hc⟩ : ∃ c, m' = [c] ∧ c = 'a' := by
      cases hmiddle with
      | cons hc hnil =>
        cases hnil
        exact ⟨_, rfl, hc.resolve_left (by decide)⟩
    by_contra hlong
    have hlen := congrArg List.length hline
    have htwo : ("a\n" : CStr).length = 2 := rfl
    rw [List.length_append, List.length_append, List.length_append, List.length_singleton, htwo] at hlen
    obtain rfl : q' = [] := List.length_eq_zero_iff.mp (by omega)
    rw [List.append_nil] at hline
    have hend := congrArg List.getLast? hline
    have hright : (p ++ ("a\n" : CStr)).getLast? = some '\n' := by
      rw [List.getLast?_append_of_ne_nil p (show ("a\n" : CStr) ≠ [] from List.cons_ne_nil _ _)]
      rfl
    rw [hright, List.getLast?_concat, hc] at hend
    exact absurd hend (by decide)

theorem exists_ok {ε α : Type} {e : Except ε α} (h : e.toOption.isSome = true) :
    ∃ a, e = .ok a := by
  cases e with
  | error err => cases h
  | ok a => exact ⟨a, rfl⟩

/-- A replacement that does not fit makes the line fail. -/
theorem rewriteLine_fails {re : Bre} {template line buf : CStr} {m : Match} {s : Sys}
    (hline : '\x00' ∉ line) (hexec : regexec re line = some m)
    (hreplace : (libzeUtilRegexSubexprReplace re libzeMaxPathLen template line
      libzeMaxPathLen).map Prod.fst = some .maxpathlen) :
    (rewriteLine re template line buf s).1.1 = .maxpathlen := by
  unfold rewriteLine
  rw [cString_eq_self hline, hexec]
  dsimp only
  cases hresult : libzeUtilRegexSubexprReplace re libzeMaxPathLen template line libzeMaxPathLen with
  | none =>
    rw [hresult] at hreplace
    cases hreplace
  | some result =>
    obtain ⟨ret, replaced⟩ := result
    rw [hresult] at hreplace
    obtain rfl : ret = .maxpathlen := Option.some.inj hreplace
    rfl

/-- The template does not fit with the text in front of the name. -/
theorem longTitle_fails : (getCfgLineFromRegex (sampleHandle none true) placeholder "a" longTitle []
    (sampleSys [])).1.1 = .maxpathlen := by
  have hline : '\x00' ∉ longTitle := by decide +kernel
  have heq : longTitle = ("title" : CStr) ++ ((' ' :: List.replicate 238 'x') ++ ("a\n" : CStr)) := by
    decide +kernel
  have hcut := title_cut (' ' :: List.replicate 238 'x')
  rw [← heq] at hcut
  obtain ⟨after, hbest⟩ := best_of_cut titleGroups_follows title_keyed hcut
  have hexec := hbest.exec titleGroups_follows.simple
  have hreplace : ((libzeUtilRegexSubexprReplace (groups 1 (titleGroups "a")) libzeMaxPathLen
      (RewriteLine.template placeholder) longTitle libzeMaxPathLen).map Prod.fst) =
      some .maxpathlen := by
    unfold libzeUtilRegexSubexprReplace
    rw [hexec]
    decide +kernel
  obtain ⟨reLinux, hlinux⟩ := exists_ok (e := formLinuxRegex "a") (by decide +kernel)
  obtain ⟨reTitle, htitle⟩ := exists_ok (e := formTitleRegex "a") (by decide +kernel)
  obtain ⟨reDataset, hdataset⟩ := exists_ok
    (e := formDatasetRegex (sampleHandle none true).envRoot "a") (by decide +kernel)
  rw [getCfgLineFromRegex_eq (fun c hc => (sample_names.1 c hc).1) sample_names.2.2 hlinux htitle
    hdataset, if_pos (by decide +kernel), rewriteEntry_title hline (occurs_of_cut hcut)]
  exact rewriteLine_fails hline hexec hreplace

/-- The bound is checked against a buffer that still holds a reference, so a line that just fits
is not saved. And a mount point with a group of its own gives its number to another group. -/
theorem not_saved_agrees :
    (¬ ∀ (h : Handle) (active new line buf buf' : CStr) (s s' : Sys), active ≠ [] →
      (∀ c ∈ active, IsNameChar c) → (∀ c ∈ new, IsNameChar c) → (∀ c ∈ h.envRoot, Ordinary c) →
      '\x00' ∉ line → '%' ∉ line → '\\' ∉ line →
      -- the lines with the placeholder and with the new name are shorter than the bound
      line.length - 1 + placeholder.length < libzeMaxPathLen →
      line.length - 1 + new.length < libzeMaxPathLen →
      ∃ out out', (getCfgLineFromRegex h placeholder active line buf s).1 = (.success, out) ∧
        (getCfgLineFromRegex h new placeholder out buf' s').1 = (.success, out') ∧
        (getCfgLineFromRegex h new active line buf' s').1 = (.success, out')) ∧
    ¬ ∀ (efi boot activeBe new line out out' out'' buf : CStr) (s : Sys),
      (∀ c ∈ new, IsNameChar c) → '\x00' ∉ line → '%' ∉ line → '\\' ∉ line →
      (getFstabLineFromRegex ⟨placeholder, activeBe, boot, efi⟩ line buf s).1 = (.success, out) →
      (getFstabLineFromRegex ⟨new, activeBe, boot, efi⟩ out buf s).1 = (.success, out') →
      (getFstabLineFromRegex ⟨new, activeBe, boot, efi⟩ line buf s).1 = (.success, out'') →
      out' = out'' := by
  constructor
  · intro hall
    have hfails := longTitle_fails
    obtain ⟨out, out', hsaved, -⟩ := hall (sampleHandle none true) "a" "b" longTitle [] []
      (sampleSys []) (sampleSys []) (by decide) sample_names.1 sample_names.2.1 sample_names.2.2
      (by decide +kernel) (by decide +kernel) (by decide +kernel) (by decide +kernel)
      (by decide +kernel)
    rw [hsaved] at hfails
    cases hfails
  · intro hall
    have heq := hall "\\(x\\)" "/boot" [] "b" "x/env/org.zectl-a /boot none bind 0 0\n"
      "x/env/org.zectl-%ZECTLBE%    a " "x/env/org.zectl-%ZECTLBE%    a " "x/env/org.zectl-b    a "
      [] (sampleSys []) sample_names.2.1 (by decide +kernel) (by decide +kernel) (by decide +kernel)
      (by decide +kernel) (by decide +kernel) (by decide +kernel)
    exact absurd heq (by decide +kernel)

end Again

end Zectl.Systemdboot.TwoPasses
