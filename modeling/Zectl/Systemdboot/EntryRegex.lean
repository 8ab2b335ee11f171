import Zectl.Systemdboot.RewriteLine

/-!
# What the expressions for an entry find

Each of the three has a head, any text, a middle with the name, and the rest of the line. None of
them is anchored, so the text in front of the head is not in any group.
-/

namespace Zectl.Systemdboot.EntryRegex

open Zectl.Lib.BasicRegex Zectl.Lib.RegexMatches Zectl.Lib.RegexGroups Zectl.Lib.RegexSyntax
open Zectl.Util.CString Zectl.Util.Replace Zectl.Zfs.System Zectl.Libze.Init
open Zectl.Util.SubexprReplace (Clean IsRef Settled Piece pieces substitute)
open Zectl.Systemdboot.ReplaceMatched Zectl.Systemdboot.Loader Zectl.Systemdboot.Fstab
open Zectl.Systemdboot.Entry Zectl.Systemdboot.RewriteLine

/-! ## The expressions -/

def titleGroups (name : CStr) : List Bre :=
  [literal ("title" : CStr) anything, symbols (name.map dotted) .empty, anything]

def linuxGroups (name : CStr) : List Bre :=
  [.alt (literal ("linux" : CStr) .empty) (literal ("initrd" : CStr) .empty), anything,
    literal ("org.zectl-" : CStr) .empty, literal name .empty, literal ("/" : CStr) anything]

/-- What is in front of the name in the parameter of an entry. -/
def datasetDir (root : CStr) : CStr := "zfs=" ++ root ++ ("/" : CStr)

def datasetGroups (root name : CStr) : List Bre :=
  [literal ("options" : CStr) (.seq (.rep (.sym .any) 0 none) (literal (datasetDir root) .empty)),
    literal name .empty, anything]

section Form
variable {name root : CStr} {re : Bre}

theorem reads_rest : Reads "\\)\\(.*\\)" [.closing, .opening, .sym .any, .star, .closing] :=
  reads_tokens (by decide +kernel)

theorem reads_title (hname : ∀ c ∈ name, Ordinary c) :
    Reads (format ["\\(title.*\\)\\(", name, "\\)\\(.*\\)"])
      ([[[.opening], chars "title", [.sym .any, .star, .closing, .opening]].flatten,
        (name.map dotted).map Token.sym,
        [.closing, .opening, .sym .any, .star, .closing]] : List (List Token)).flatten :=
  reads_flatten (.cons (reads_tokens (by decide +kernel)) (.cons (reads_name hname)
    (.cons reads_rest .nil)))

theorem regcomp_title (hname : ∀ c ∈ name, Ordinary c) :
    regcomp (format ["\\(title.*\\)\\(", name, "\\)\\(.*\\)"]) =
      some (groups 1 (titleGroups name)) := by
  rw [regcomp, (reads_title hname).lex, Option.bind_some]
  simp only [List.flatten_cons, List.flatten_nil, List.cons_append, List.nil_append,
    List.append_assoc, parse, parse_chars, parse_symbols, Open.push, Open.close, List.isEmpty_nil,
    if_true, List.foldl_cons, List.foldl_nil, branch, branch_symbols, symbols_literal, titleGroups,
    groups, anything, Nat.reduceAdd, Nat.zero_add]

theorem formTitleRegex_ok (hname : ∀ c ∈ name, Ordinary c) (h : formTitleRegex name = .ok re) :
    re = groups 1 (titleGroups name) := by
  unfold formTitleRegex at h
  rcases hconcat : libzeUtilConcat "\\(title.*\\)\\(" name "\\)\\(.*\\)" regexBuflen with ⟨ret, buf⟩
  rw [hconcat] at h
  dsimp only at h
  split at h
  · cases h
  rename_i hret
  rw [not_not.mp hret] at hconcat
  obtain ⟨-, hbuf⟩ := (libzeUtilConcat_eq_ok_iff (by decide)).mp hconcat
  have hform : ("\\(title.*\\)\\(" : CStr) ++ name ++ ("\\)\\(.*\\)" : CStr) =
      format ["\\(title.*\\)\\(", name, "\\)\\(.*\\)"] := by
    simp only [format, List.flatten_cons, List.flatten_nil, List.append_nil, List.append_assoc]
  rw [hbuf.trans hform, regcomp_title hname] at h
  exact (Except.ok.inj h).symm

theorem reads_linux (hname : ∀ c ∈ name, Ordinary c) :
    Reads (format ["\\(linux\\|initrd\\)\\(.*\\)\\(", quoted zePropNamespace, "-\\)\\(", quoted name,
        "\\)\\(/.*\\)"])
      ([[[.opening], chars "linux", [.bar], chars "initrd",
          [.closing, .opening, .sym .any, .star, .closing, .opening]].flatten,
        chars "org.zectl", [chars "-", [.closing, .opening]].flatten, chars name,
        [[.closing, .opening], chars "/", [.sym .any, .star, .closing]].flatten] :
          List (List Token)).flatten :=
  reads_flatten (.cons (reads_tokens (by decide +kernel)) (.cons (reads_tokens (by decide +kernel))
    (.cons (reads_tokens (by decide +kernel)) (.cons (reads_quoted hname)
      (.cons (reads_tokens (by decide +kernel)) .nil)))))

theorem regcomp_linux (hname : ∀ c ∈ name, Ordinary c) :
    regcomp (format ["\\(linux\\|initrd\\)\\(.*\\)\\(", quoted zePropNamespace, "-\\)\\(", quoted name,
      "\\)\\(/.*\\)"]) = some (groups 1 (linuxGroups name)) := by
  have hdir : literal ("org.zectl-" : CStr) .empty =
      literal ("org.zectl" : CStr) (literal ("-" : CStr) .empty) := by
    rw [← literal_append]
    exact congrArg (literal · .empty) (by decide +kernel)
  rw [regcomp, (reads_linux hname).lex, Option.bind_some, linuxGroups, hdir]
  simp only [List.flatten_cons, List.flatten_nil, List.cons_append, List.nil_append,
    List.append_assoc, parse, parse_chars, Open.push, Open.close, List.isEmpty_nil, if_true,
    List.foldl_cons, List.foldl_nil, branch, branch_symbols, symbols_literal, groups, anything,
    Nat.reduceAdd, Nat.zero_add]

theorem formLinuxRegex_ok (hname : ∀ c ∈ name, Ordinary c) (h : formLinuxRegex name = .ok re) :
    re = groups 1 (linuxGroups name) := by
  unfold formLinuxRegex at h
  split at h
  · rename_i hbe hns
    rw [(noDots_success hbe).1, (noDots_success hns).1] at h
    unfold compileRegex at h
    rw [regcomp_linux hname] at h
    split at h
    · cases h
    · exact (Except.ok.inj h).symm
  · cases h
  · cases h

theorem reads_dataset (hroot : ∀ c ∈ root, Ordinary c) (hname : ∀ c ∈ name, Ordinary c) :
    Reads (format ["\\(options.*zfs=", quoted root, "/\\)\\(", quoted name, "\\)\\(.*\\)"])
      ([[[.opening], chars "options", [.sym .any, .star], chars "zfs="].flatten, chars root,
        [chars "/", [.closing, .opening]].flatten, chars name,
        [.closing, .opening, .sym .any, .star, .closing]] : List (List Token)).flatten :=
  reads_flatten (.cons (reads_tokens (by decide +kernel)) (.cons (reads_quoted hroot)
    (.cons (reads_tokens (by decide +kernel)) (.cons (reads_quoted hname) (.cons reads_rest .nil)))))

theorem regcomp_dataset (hroot : ∀ c ∈ root, Ordinary c) (hname : ∀ c ∈ name, Ordinary c) :
    regcomp (format ["\\(options.*zfs=", quoted root, "/\\)\\(", quoted name,
      "\\)\\(.*\\)"]) = some (groups 1 (datasetGroups root name)) := by
  rw [regcomp, (reads_dataset hroot hname).lex, Option.bind_some, datasetGroups, datasetDir,
    literal_append, literal_append]
  simp only [List.flatten_cons, List.flatten_nil, List.cons_append, List.nil_append,
    List.append_assoc, parse, parse_chars, Open.push, Open.close, List.isEmpty_nil, if_true,
    List.foldl_cons, List.foldl_nil, branch, branch_symbols, symbols_literal, groups, anything,
    Nat.reduceAdd, Nat.zero_add]

theorem formDatasetRegex_ok (hroot : ∀ c ∈ root, Ordinary c) (hname : ∀ c ∈ name, Ordinary c)
    (h : formDatasetRegex root name = .ok re) : re = groups 1 (datasetGroups root name) := by
  unfold formDatasetRegex at h
  split at h
  · rename_i hbe hroot'
    rw [(noDots_success hbe).1, (noDots_success hroot').1] at h
    unfold compileRegex at h
    rw [regcomp_dataset hroot hname] at h
    split at h
    · cases h
    · exact (Except.ok.inj h).symm
  · cases h
  · cases h

end Form

/-! ## Where a line is cut -/

/-- What an expression asks of the head, the middle and the rest of a line. -/
structure Pattern where
  head : CStr → Prop
  middle : CStr → Prop
  rest : CStr → Prop

/-- A line with the parts that a pattern asks for, and any text before them and between the first
two. -/
structure Pattern.Parts (P : Pattern) (line pre h p m q : CStr) : Prop where
  line_eq : line = pre ++ (h ++ (p ++ (m ++ q)))
  head : P.head h
  middle : P.middle m
  rest : P.rest q

/-- The parts begin first, and the middle is the last one there is. -/
structure Pattern.Cut (P : Pattern) (line pre h p m q : CStr) : Prop extends
    P.Parts line pre h p m q where
  first : ∀ pre' h' p' m' q', P.Parts line pre' h' p' m' q' → pre.length ≤ pre'.length
  last : ∀ p' m' q', P.Parts line pre h p' m' q' → p'.length ≤ p.length

def Pattern.Occurs (P : Pattern) (line : CStr) : Prop := ∃ pre h p m q, P.Parts line pre h p m q

/-- A text that is the name but for its dots. -/
def Dotted (name w : CStr) : Prop := List.Forall₂ (fun a c => a = '.' ∨ c = a) name w

def titlePattern (name : CStr) : Pattern where
  head h := h = "title"
  middle := Dotted name
  rest _ := True

/-- The component of a path that names the environment. -/
def kernelName (name : CStr) : CStr := "org.zectl-" ++ name

def linuxPattern (name : CStr) : Pattern where
  head h := h = "linux" ∨ h = "initrd"
  middle m := m = kernelName name
  rest q := q.head? = some '/'

def datasetPattern (root name : CStr) : Pattern where
  head h := h = "options"
  middle m := m = datasetDir root ++ name
  rest _ := True

section Splits
variable {P : Pattern} {rs : List Bre} {texts : CStr → CStr → CStr → CStr → List CStr}
  {name root line before after w pre h p m q : CStr} {ws : List CStr}

theorem matches_symbols_iff {r : Bre} {ks : List Sym} : Matches (symbols ks r) before w after ↔
    ∃ u v, w = u ++ v ∧ List.Forall₂ (fun k c => k.has c = true) ks u ∧
      Matches r (before ++ u) v after := by
  induction ks generalizing before w with
  | nil =>
    constructor
    · intro hr
      refine ⟨[], w, rfl, .nil, ?_⟩
      rw [List.append_nil]
      exact hr
    · intro hr
      obtain ⟨u, v, rfl, hu, hv⟩ := hr
      cases hu
      rw [List.append_nil] at hv
      exact hv
  | cons k ks ih =>
    show Matches (.seq (.sym k) (symbols ks r)) before w after ↔ _
    rw [matches_seq_iff]
    constructor
    · intro hr
      obtain ⟨u, v, rfl, hu, hv⟩ := hr
      obtain ⟨c, rfl, hc⟩ := matches_sym_iff.mp hu
      obtain ⟨u', v', rfl, hu', hv'⟩ := ih.mp hv
      exact ⟨c :: u', v', rfl, .cons hc hu', by simpa using hv'⟩
    · intro hr
      obtain ⟨u, v, rfl, hu, hv⟩ := hr
      cases hu with
      | @cons _ c _ u hc hu =>
        exact ⟨[c], u ++ v, rfl, .sym hc, ih.mpr ⟨u, v, rfl, hu, by simpa using hv⟩⟩

theorem matches_dotted : Matches (symbols (name.map dotted) .empty) before w after ↔
    Dotted name w := by
  have hsym : ∀ a c, (dotted a).has c = true ↔ a = '.' ∨ c = a := by
    intro a c
    unfold dotted
    split
    · rename_i ha
      simp [Sym.has, ha]
    · rename_i ha
      simp [Sym.has, ha]
  rw [matches_symbols_iff]
  constructor
  · intro hr
    obtain ⟨u, v, rfl, hu, hv⟩ := hr
    obtain rfl := matches_empty_iff.mp hv
    rw [List.append_nil, Dotted]
    simpa [List.forall₂_map_left_iff, hsym] using hu
  · intro hw
    refine ⟨w, [], (List.append_nil w).symm, ?_, .empty⟩
    rw [Dotted] at hw
    simpa [List.forall₂_map_left_iff, hsym] using hw

theorem matches_text {text : CStr} : Matches (literal text .empty) before w after ↔ w = text := by
  rw [matches_literal_iff]
  constructor
  · intro hr
    obtain ⟨v, rfl, hv⟩ := hr
    rw [matches_empty_iff.mp hv, List.append_nil]
  · rintro rfl
    exact ⟨[], (List.append_nil w).symm, .empty⟩

theorem matches_text_anything {text : CStr} : Matches (literal text anything) before w after ↔
    ∃ v, w = text ++ v := by
  rw [matches_literal_iff]
  constructor
  · intro hr
    obtain ⟨v, rfl, -⟩ := hr
    exact ⟨v, rfl⟩
  · intro hr
    obtain ⟨v, rfl⟩ := hr
    exact ⟨v, rfl, matches_anything⟩

theorem splits_title : Splits (titleGroups name) before ws after ↔ ∃ h p m q,
    (titlePattern name).head h ∧ (titlePattern name).middle m ∧ (titlePattern name).rest q ∧
      ws = [h ++ p, m, q] := by
  rw [titleGroups]
  constructor
  · intro hr
    obtain ⟨w, vs, rfl, hw, hr⟩ := splits_cons_iff.mp hr
    obtain ⟨m, us, rfl, hm, hr⟩ := splits_cons_iff.mp hr
    obtain ⟨q, ts, rfl, -, hr⟩ := splits_cons_iff.mp hr
    obtain rfl := splits_nil_iff.mp hr
    obtain ⟨p, rfl⟩ := matches_text_anything.mp hw
    exact ⟨_, p, m, q, rfl, matches_dotted.mp hm, trivial, rfl⟩
  · intro hr
    obtain ⟨h, p, m, q, rfl, hm, -, rfl⟩ := hr
    exact .cons (matches_text_anything.mpr ⟨p, rfl⟩)
      (.cons (matches_dotted.mpr hm) (.cons matches_anything .nil))

theorem splits_linux : Splits (linuxGroups name) before ws after ↔ ∃ h p m q,
    (linuxPattern name).head h ∧ (linuxPattern name).middle m ∧ (linuxPattern name).rest q ∧
      ws = [h, p, "org.zectl-", name, q] := by
  have hslash : ("/" : CStr) = ['/'] := by decide +kernel
  have hrest : ∀ q : CStr, q.head? = some '/' ↔ ∃ v, q = ("/" : CStr) ++ v := by
    intro q
    rw [hslash]
    constructor
    · intro hq
      obtain ⟨v, rfl⟩ := List.head?_eq_some_iff.mp hq
      exact ⟨v, rfl⟩
    · rintro ⟨v, rfl⟩
      rfl
  rw [linuxGroups]
  constructor
  · intro hr
    obtain ⟨h, vs, rfl, hh, hr⟩ := splits_cons_iff.mp hr
    obtain ⟨p, us, rfl, -, hr⟩ := splits_cons_iff.mp hr
    obtain ⟨m, ts, rfl, hm, hr⟩ := splits_cons_iff.mp hr
    obtain ⟨n, rs, rfl, hn, hr⟩ := splits_cons_iff.mp hr
    obtain ⟨q, qs, rfl, hq, hr⟩ := splits_cons_iff.mp hr
    obtain rfl := splits_nil_iff.mp hr
    obtain rfl := matches_text.mp hm
    obtain rfl := matches_text.mp hn
    have hhead : h = "linux" ∨ h = "initrd" := by
      obtain hlinux | hinitrd := matches_alt_iff.mp hh
      · exact Or.inl (matches_text.mp hlinux)
      · exact Or.inr (matches_text.mp hinitrd)
    exact ⟨h, p, _, q, hhead, rfl, (hrest q).mpr (matches_text_anything.mp hq), rfl⟩
  · intro hr
    obtain ⟨h, p, m, q, hh, rfl, hq, rfl⟩ := hr
    refine .cons (matches_alt_iff.mpr ?_) (.cons matches_anything (.cons (matches_text.mpr rfl)
      (.cons (matches_text.mpr rfl) (.cons (matches_text_anything.mpr ((hrest q).mp hq)) .nil))))
    obtain hlinux | hinitrd := hh
    · exact Or.inl (matches_text.mpr hlinux)
    · exact Or.inr (matches_text.mpr hinitrd)

theorem splits_dataset : Splits (datasetGroups root name) before ws after ↔ ∃ h p m q,
    (datasetPattern root name).head h ∧ (datasetPattern root name).middle m ∧
      (datasetPattern root name).rest q ∧ ws = [h ++ (p ++ datasetDir root), name, q] := by
  rw [datasetGroups]
  constructor
  · intro hr
    obtain ⟨w, vs, rfl, hw, hr⟩ := splits_cons_iff.mp hr
    obtain ⟨m, us, rfl, hm, hr⟩ := splits_cons_iff.mp hr
    obtain ⟨q, ts, rfl, -, hr⟩ := splits_cons_iff.mp hr
    obtain rfl := splits_nil_iff.mp hr
    obtain rfl := matches_text.mp hm
    obtain ⟨v, rfl, hv⟩ := matches_literal_iff.mp hw
    obtain ⟨p, d, rfl, -, hd⟩ := matches_seq_iff.mp hv
    obtain rfl := matches_text.mp hd
    exact ⟨_, p, _, q, rfl, rfl, trivial, rfl⟩
  · intro hr
    obtain ⟨h, p, m, q, rfl, rfl, -, rfl⟩ := hr
    refine .cons (matches_literal_iff.mpr ⟨_, rfl, ?_⟩) (.cons (matches_text.mpr rfl)
      (.cons matches_anything .nil))
    exact matches_seq_iff.mpr ⟨p, _, rfl, matches_dots, matches_text.mpr rfl⟩

/-- How the groups of an expression follow a pattern: they hold the texts of its parts, and the
longest groups are those with the most text before the middle. -/
structure Follows (rs : List Bre) (P : Pattern) (texts : CStr → CStr → CStr → CStr → List CStr) :
    Prop where
  simple : ∀ r ∈ rs, Simple r
  splits : ∀ before ws after, Splits rs before ws after ↔
    ∃ h p m q, P.head h ∧ P.middle m ∧ P.rest q ∧ ws = texts h p m q
  flatten : ∀ h p m q, P.head h → P.middle m → (texts h p m q).flatten = h ++ (p ++ (m ++ q))
  greatest : ∀ h p m q p' m' q', NoLonger (texts h p' m' q') (texts h p m q) →
    p'.length ≤ p.length
  extend : ∀ q after, P.rest q → P.rest (q ++ after)

theorem simple_symbols {ks : List Sym} {r : Bre} (hr : Simple r) : Simple (symbols ks r) := by
  induction ks with
  | nil => exact hr
  | cons k ks ih => exact ⟨trivial, ih⟩

theorem simple_anything : Simple anything := ⟨⟨trivial, rfl, rfl⟩, trivial⟩

theorem titleGroups_follows :
    Follows (titleGroups name) (titlePattern name) fun h p m q => [h ++ p, m, q] where
  simple := by
    simp only [titleGroups, List.forall_mem_cons]
    exact ⟨simple_literal simple_anything, simple_symbols trivial, simple_anything,
      fun r hr => absurd hr List.not_mem_nil⟩
  splits _ _ _ := splits_title
  flatten h p m q _ _ := by
    simp only [List.flatten_cons, List.flatten_nil, List.append_nil, List.append_assoc]
  greatest h p m q p' m' q' hle := by
    simp only [NoLonger, List.length_append] at hle
    omega
  extend _ _ _ := trivial

theorem linuxGroups_follows : Follows (linuxGroups name) (linuxPattern name)
    fun h p _ q => [h, p, "org.zectl-", name, q] where
  simple := by
    simp only [linuxGroups, List.forall_mem_cons]
    exact ⟨⟨simple_literal trivial, simple_literal trivial⟩, simple_anything,
      simple_literal trivial, simple_literal trivial, simple_literal simple_anything,
      fun r hr => absurd hr List.not_mem_nil⟩
  splits _ _ _ := splits_linux
  flatten h p m q _ hm := by
    have hfive : ∀ w : CStr, [h, p, w, name, q].flatten = h ++ (p ++ (w ++ name ++ q)) := by
      intro w
      simp only [List.flatten_cons, List.flatten_nil, List.append_nil, List.append_assoc]
    obtain rfl : m = kernelName name := hm
    exact hfive "org.zectl-"
  greatest h p m q p' m' q' hle := by
    obtain hlt | ⟨-, hle⟩ := hle
    · exact absurd hlt (Nat.lt_irrefl _)
    obtain hlt | ⟨heq, -⟩ := hle
    · exact Nat.le_of_lt hlt
    · exact Nat.le_of_eq heq
  extend q after hq := by
    obtain ⟨v, rfl⟩ := List.head?_eq_some_iff.mp hq
    rfl

theorem datasetGroups_follows : Follows (datasetGroups root name) (datasetPattern root name)
    fun h p _ q => [h ++ (p ++ datasetDir root), name, q] where
  simple := by
    simp only [datasetGroups, List.forall_mem_cons]
    exact ⟨simple_literal ⟨⟨trivial, rfl, rfl⟩, simple_literal trivial⟩, simple_literal trivial,
      simple_anything, fun r hr => absurd hr List.not_mem_nil⟩
  splits _ _ _ := splits_dataset
  flatten h p m q _ hm := by
    obtain rfl : m = datasetDir root ++ name := hm
    simp only [List.flatten_cons, List.flatten_nil, List.append_nil, List.append_assoc]
  greatest h p m q p' m' q' hle := by
    simp only [NoLonger, List.length_append] at hle
    omega
  extend _ _ _ := trivial

theorem Follows.split (hP : Follows rs P texts) (hparts : P.Parts line pre h p m q) :
    line = pre ++ ((texts h p m q).flatten ++ []) ∧ Splits rs pre (texts h p m q) [] := by
  constructor
  · rw [List.append_nil, hP.flatten _ _ _ _ hparts.head hparts.middle, hparts.line_eq]
  · exact (hP.splits _ _ _).mpr ⟨h, p, m, q, hparts.head, hparts.middle, hparts.rest, rfl⟩

/-- Something is matched where the pattern occurs, and only there. -/
theorem Follows.noSplit_iff (hP : Follows rs P texts) : NoSplit rs line ↔ ¬ P.Occurs line := by
  constructor
  · intro hnone hoccurs
    obtain ⟨pre, h, p, m, q, hparts⟩ := hoccurs
    obtain ⟨heq, hsplit⟩ := hP.split hparts
    exact hnone _ _ _ heq hsplit
  · intro hnone before ws after heq hsplit
    obtain ⟨h, p, m, q, hh, hm, hq, rfl⟩ := (hP.splits _ _ _).mp hsplit
    apply hnone
    refine ⟨before, h, p, m, q ++ after, ?_, hh, hm, hP.extend _ _ hq⟩
    rw [heq, hP.flatten _ _ _ _ hh hm]
    simp only [List.append_assoc]

/-- The selected split has the parts that the pattern cuts out. -/
theorem Follows.cut_of_best (hP : Follows rs P texts) (hbest : Best rs line before ws after) :
    ∃ h p m q, P.Cut line before h p m q ∧ ws = texts h p m q := by
  obtain ⟨h, p, m, q, hh, hm, hq, rfl⟩ := (hP.splits _ _ _).mp hbest.splits
  have hafter : after = [] := by
    have hmore : Splits rs before (texts h p m (q ++ after)) [] :=
      (hP.splits _ _ _).mpr ⟨h, p, m, _, hh, hm, hP.extend _ _ hq, rfl⟩
    have hle := hbest.longest _ _ (by
      rw [hP.flatten _ _ _ _ hh hm, hP.flatten _ _ _ _ hh hm]
      simp only [List.append_assoc, List.append_nil]) hmore
    rw [hP.flatten _ _ _ _ hh hm, hP.flatten _ _ _ _ hh hm] at hle
    simp only [List.length_append] at hle
    exact List.length_eq_zero_iff.mp (by omega)
  subst hafter
  have hline := hbest.input_eq
  rw [List.append_nil, hP.flatten _ _ _ _ hh hm] at hline
  refine ⟨h, p, m, q, ⟨⟨hline, hh, hm, hq⟩, ?_, ?_⟩, rfl⟩
  · intro pre' h' p' m' q' hparts
    obtain ⟨heq, hsplit⟩ := hP.split hparts
    exact hbest.first _ _ _ heq hsplit
  · intro p' m' q' hparts
    obtain ⟨heq, hsplit⟩ := hP.split hparts
    apply hP.greatest h p m q p' m' q'
    apply hbest.greedy _ _ hsplit
    rw [hP.flatten _ _ _ _ hh hm, hP.flatten _ _ _ _ hparts.head hparts.middle]
    exact List.append_cancel_left (hline.symm.trans hparts.line_eq)

end Splits

/-! ## The callback -/

/-- A backslash in front of the new name makes a reference of its first digit. -/
def Escapes (p new : CStr) : Prop := p.getLast? = some '\\' ∧ ∃ c ∈ new.head?, IsRef c

/-- What the callback makes of a line: the first expression that finds something rewrites it. -/
inductive Leaves (root active new line : CStr) : CStr → Prop
  | title {pre h p m q out : CStr} (hcut : (titlePattern active).Cut line pre h p m q)
      (hout : ¬ Escapes p new → out = h ++ (p ++ (new ++ q))) : Leaves root active new line out
  | linux {pre h p m q : CStr} (htitle : ¬ (titlePattern active).Occurs line)
      (hcut : (linuxPattern active).Cut line pre h p m q) :
      Leaves root active new line (h ++ (p ++ (kernelName new ++ q)))
  | dataset {pre h p m q : CStr} (htitle : ¬ (titlePattern active).Occurs line)
      (hlinux : ¬ (linuxPattern active).Occurs line)
      (hcut : (datasetPattern root active).Cut line pre h p m q) :
      Leaves root active new line (h ++ (p ++ (datasetDir root ++ new ++ q)))
  | kept (htitle : ¬ (titlePattern active).Occurs line)
      (hlinux : ¬ (linuxPattern active).Occurs line)
      (hdataset : ¬ (datasetPattern root active).Occurs line) : Leaves root active new line line

section Callback
variable {h : Handle} {active new line buf out template : CStr} {s : Sys} {P : Pattern}
  {rs : List Bre} {texts : CStr → CStr → CStr → CStr → List CStr}

theorem Follows.isSome_iff (hP : Follows rs P texts) :
    (regexec (groups 1 rs) line).isSome ↔ P.Occurs line := by
  obtain ⟨hexec, hnone⟩ | ⟨before, ws, after, hbest, hexec⟩ := @regexec_groups rs line hP.simple
  · rw [hexec]
    exact iff_of_false (by decide) (hP.noSplit_iff.mp hnone)
  · rw [hexec]
    obtain ⟨h, p, m, q, hcut, -⟩ := hP.cut_of_best hbest
    exact iff_of_true rfl ⟨before, h, p, m, q, hcut.toParts⟩

/-- A rewriting whose expression finds something works on the cut. -/
theorem Follows.rewrites (hP : Follows rs P texts) (hoccurs : P.Occurs line)
    (hline : '\x00' ∉ line) (hfits : template.length < libzeMaxPathLen)
    (hr : (rewriteLine (groups 1 rs) template line buf s).1 = (.success, out)) :
    ∃ pre h p m q g, P.Cut line pre h p m q ∧
      (∀ d, IsRef d → g d = textOf (texts h p m q) d) ∧
      (Clean g [] (pieces template) → out = substitute g template) := by
  obtain ⟨hnone, -⟩ | ⟨pre, ws, after, g, hbest, hg, hsub⟩ :=
    rewriteLine_success hP.simple hline hfits hr
  · exact absurd hoccurs (hP.noSplit_iff.mp hnone)
  · obtain ⟨h, p, m, q, hcut, rfl⟩ := hP.cut_of_best hbest
    exact ⟨pre, h, p, m, q, g, hcut, hg, hsub⟩

section Clean
variable {root pre h p m q : CStr} {g : Char → CStr}

theorem title_clean (hcut : (titlePattern active).Cut line pre h p m q) (hnew : '\\' ∉ new)
    (hg : ∀ d, IsRef d → g d = textOf [h ++ p, m, q] d) (hescapes : ¬ Escapes p new) :
    Clean g [] (pieces (RewriteLine.template new)) := by
  have hone : g '1' = h ++ p := hg '1' (by decide)
  have hhead : h = ['t', 'i', 't', 'l'] ++ ['e'] := hcut.head
  apply clean_template hnew
  · rw [hone, hhead]
    exact List.append_ne_nil_of_left_ne_nil (by decide) _
  · intro hslash c hc hdigit
    apply hescapes
    refine ⟨?_, c, hc, hdigit⟩
    rw [hone, List.getLast?_append] at hslash
    cases hp : p.getLast? with
    | none =>
      rw [hp, hhead, List.getLast?_concat] at hslash
      exact absurd hslash (by decide)
    | some d =>
      rw [hp] at hslash
      exact hslash

theorem dataset_clean (hnew : '\\' ∉ new)
    (hg : ∀ d, IsRef d → g d = textOf [h ++ (p ++ datasetDir root), active, q] d) :
    Clean g [] (pieces (RewriteLine.template new)) := by
  have hlast : (g '1').getLast? = some '/' := by
    have hone : g '1' = h ++ (p ++ datasetDir root) := hg '1' (by decide)
    have hslash : ("/" : CStr) = ['/'] := by decide +kernel
    rw [hone, datasetDir, hslash, ← List.append_assoc, ← List.append_assoc, List.getLast?_concat]
  apply clean_template hnew
  · intro hnil
    rw [hnil] at hlast
    cases hlast
  · intro hslash
    rw [hlast] at hslash
    cases hslash

theorem linux_clean (hcut : (linuxPattern active).Cut line pre h p m q) (hnew : '\\' ∉ new)
    (hg : ∀ d, IsRef d → g d = textOf [h, p, "org.zectl-", active, q] d) :
    Clean g [] (pieces (pathTemplate new)) := by
  have hone : g '1' = h := hg '1' (by decide)
  have hthree : g '3' = "org.zectl-" := hg '3' (by decide)
  apply clean_pathTemplate hnew _ _ (by decide : '-' ≠ '\\')
  · rw [hone]
    rintro rfl
    exact absurd hcut.head (by simp [linuxPattern])
  · rw [hthree]
    decide +kernel

end Clean

theorem title_rewrites {root : CStr} (hnew : '\\' ∉ new) (hline : '\x00' ∉ line)
    (hfits : (RewriteLine.template new).length < libzeMaxPathLen)
    (hoccurs : (titlePattern active).Occurs line)
    (hr : (rewriteLine (groups 1 (titleGroups active)) (RewriteLine.template new) line buf s).1 =
      (.success, out)) : Leaves root active new line out := by
  obtain ⟨pre, h, p, m, q, g, hcut, hg, hsub⟩ := titleGroups_follows.rewrites hoccurs hline hfits hr
  apply Leaves.title hcut
  intro hescapes
  have hone : g '1' = h ++ p := hg '1' (by decide)
  have hthree : g '3' = q := hg '3' (by decide)
  rw [hsub (title_clean hcut hnew hg hescapes), substitute_template hnew, hone, hthree]
  simp only [List.append_assoc]

theorem dataset_rewrites {root : CStr} (hnew : '\\' ∉ new) (hline : '\x00' ∉ line)
    (hfits : (RewriteLine.template new).length < libzeMaxPathLen)
    (htitle : ¬ (titlePattern active).Occurs line) (hlinux : ¬ (linuxPattern active).Occurs line)
    (hr : (rewriteLine (groups 1 (datasetGroups root active)) (RewriteLine.template new) line buf
      s).1 = (.success, out)) : Leaves root active new line out := by
  obtain ⟨hnone, rfl⟩ | ⟨pre, ws, after, g, hbest, hg, hsub⟩ :=
    rewriteLine_success datasetGroups_follows.simple hline hfits hr
  · exact Leaves.kept htitle hlinux (datasetGroups_follows.noSplit_iff.mp hnone)
  obtain ⟨h, p, m, q, hcut, rfl⟩ := datasetGroups_follows.cut_of_best hbest
  have hone : g '1' = h ++ (p ++ datasetDir root) := hg '1' (by decide)
  have hthree : g '3' = q := hg '3' (by decide)
  have hout : out = h ++ (p ++ (datasetDir root ++ new ++ q)) := by
    rw [hsub (dataset_clean hnew hg), substitute_template hnew, hone, hthree]
    simp only [List.append_assoc]
  rw [hout]
  exact Leaves.dataset htitle hlinux hcut

theorem linux_rewrites {root : CStr} (hnew : '\\' ∉ new) (hline : '\x00' ∉ line)
    (hfits : (pathTemplate new).length < libzeMaxPathLen)
    (htitle : ¬ (titlePattern active).Occurs line) (hoccurs : (linuxPattern active).Occurs line)
    (hr : (rewriteLine (groups 1 (linuxGroups active)) (pathTemplate new) line buf s).1 =
      (.success, out)) : Leaves root active new line out := by
  obtain ⟨pre, h, p, m, q, g, hcut, hg, hsub⟩ := linuxGroups_follows.rewrites hoccurs hline hfits hr
  have hone : g '1' = h := hg '1' (by decide)
  have htwo : g '2' = p := hg '2' (by decide)
  have hthree : g '3' = "org.zectl-" := hg '3' (by decide)
  have hfive : g '5' = q := hg '5' (by decide)
  have hname : g '3' ++ (new ++ g '5') = kernelName new ++ q := by
    rw [hthree, hfive]
    exact (List.append_assoc _ _ _).symm
  have hout : out = h ++ (p ++ (kernelName new ++ q)) := by
    rw [hsub (linux_clean hcut hnew hg), substitute_pathTemplate hnew, hname, hone, htwo]
  rw [hout]
  exact Leaves.linux htitle hcut

/-- No line comes out without the three expressions. -/
theorem forms_of_success
    (hr : (getCfgLineFromRegex h new active line buf s).1 = (.success, out)) :
    ∃ reLinux reTitle reDataset, formLinuxRegex active = .ok reLinux ∧
      formTitleRegex active = .ok reTitle ∧ formDatasetRegex h.envRoot active = .ok reDataset := by
  unfold getCfgLineFromRegex at hr
  cases hlinux : formLinuxRegex active with
  | error err =>
    rw [hlinux] at hr
    exact absurd hr (fail_ne (formLinuxRegex_error hlinux))
  | ok reLinux =>
  cases htitle : formTitleRegex active with
  | error err =>
    rw [hlinux, htitle] at hr
    exact absurd hr (fail_ne (formTitleRegex_error htitle))
  | ok reTitle =>
  cases hdataset : formDatasetRegex h.envRoot active with
  | error err =>
    rw [hlinux, htitle, hdataset] at hr
    exact absurd hr (fail_ne (formDatasetRegex_error hdataset))
  | ok reDataset => exact ⟨reLinux, reTitle, reDataset, rfl, rfl, rfl⟩

/-- The rewriting by the first expression that finds something. -/
def rewriteEntry (root active new : CStr) : LineReplaceFn := fun line buf =>
  if (regexec (groups 1 (titleGroups active)) (cString line)).isSome then
    rewriteLine (groups 1 (titleGroups active)) (RewriteLine.template new) line buf
  else if (regexec (groups 1 (linuxGroups active)) (cString line)).isSome then
    rewriteLine (groups 1 (linuxGroups active)) (pathTemplate new) line buf
  else rewriteLine (groups 1 (datasetGroups root active)) (RewriteLine.template new) line buf

/-- With valid expressions the callback does this, unless a template is too long. -/
theorem getCfgLineFromRegex_eq {reLinux reTitle reDataset : Bre}
    (hactive : ∀ c ∈ active, Ordinary c) (hroot : ∀ c ∈ h.envRoot, Ordinary c)
    (hlinux : formLinuxRegex active = .ok reLinux) (htitle : formTitleRegex active = .ok reTitle)
    (hdataset : formDatasetRegex h.envRoot active = .ok reDataset) :
    getCfgLineFromRegex h new active line buf =
      if (RewriteLine.template new).length < libzeMaxPathLen ∧
          (pathTemplate new).length < libzeMaxPathLen then
        rewriteEntry h.envRoot active new line buf
      else pure (.minusOne, buf) := by
  have htwo : ("\\1" : CStr) ++ new ++ ("\\3" : CStr) = RewriteLine.template new := by
    rw [RewriteLine.template]
    simp only [format, List.flatten_cons, List.flatten_nil, List.append_nil, List.append_assoc]
  have hfour : ("\\1\\2\\3" : CStr) ++ new ++ ("\\5" : CStr) = pathTemplate new := by
    rw [pathTemplate]
    simp only [format, List.flatten_cons, List.flatten_nil, List.append_nil, List.append_assoc]
  have hbuf : 0 < libzeMaxPathLen := by decide
  have hconcat := libzeUtilConcat_eq "\\1" new "\\3" hbuf
  have hconcat' := libzeUtilConcat_eq "\\1\\2\\3" new "\\5" hbuf
  rw [htwo] at hconcat
  rw [hfour] at hconcat'
  unfold getCfgLineFromRegex rewriteEntry
  rw [hlinux, htitle, hdataset, formLinuxRegex_ok hactive hlinux, formTitleRegex_ok hactive htitle,
    formDatasetRegex_ok hroot hactive hdataset]
  dsimp only
  rw [hconcat, hconcat']
  generalize RewriteLine.template new = two
  generalize pathTemplate new = four
  by_cases hfits : two.length < libzeMaxPathLen
  · rw [if_pos hfits, take_of_fits hfits]
    by_cases hfits' : four.length < libzeMaxPathLen
    · have hboth : two.length < libzeMaxPathLen ∧ four.length < libzeMaxPathLen := ⟨hfits, hfits'⟩
      rw [if_pos hfits', take_of_fits hfits', if_pos hboth]
      rfl
    · have hboth : ¬ (two.length < libzeMaxPathLen ∧ four.length < libzeMaxPathLen) :=
        fun h => hfits' h.2
      rw [if_neg hfits', if_neg hboth]
      rfl
  · have hboth : ¬ (two.length < libzeMaxPathLen ∧ four.length < libzeMaxPathLen) :=
      fun h => hfits h.1
    rw [if_neg hfits, if_neg hboth]
    rfl

section Entry
variable {root pre h p m q : CStr}

theorem rewriteEntry_title (hline : '\x00' ∉ line) (hoccurs : (titlePattern active).Occurs line) :
    rewriteEntry root active new line buf =
      rewriteLine (groups 1 (titleGroups active)) (RewriteLine.template new) line buf := by
  rw [rewriteEntry, cString_eq_self hline, if_pos (titleGroups_follows.isSome_iff.mpr hoccurs)]

theorem rewriteEntry_linux (hline : '\x00' ∉ line) (hno : ¬ (titlePattern active).Occurs line)
    (hoccurs : (linuxPattern active).Occurs line) : rewriteEntry root active new line buf =
      rewriteLine (groups 1 (linuxGroups active)) (pathTemplate new) line buf := by
  rw [rewriteEntry, cString_eq_self hline,
    if_neg fun hsome => hno (titleGroups_follows.isSome_iff.mp hsome),
    if_pos (linuxGroups_follows.isSome_iff.mpr hoccurs)]

theorem rewriteEntry_dataset (hline : '\x00' ∉ line) (hno : ¬ (titlePattern active).Occurs line)
    (hno' : ¬ (linuxPattern active).Occurs line) : rewriteEntry root active new line buf =
      rewriteLine (groups 1 (datasetGroups root active)) (RewriteLine.template new) line buf := by
  rw [rewriteEntry, cString_eq_self hline,
    if_neg fun hsome => hno (titleGroups_follows.isSome_iff.mp hsome),
    if_neg fun hsome => hno' (linuxGroups_follows.isSome_iff.mp hsome)]

end Entry

/-- The three expressions in the order in which the callback tries them. -/
theorem getCfgLineFromRegex_leaves (hactive : ∀ c ∈ active, Ordinary c)
    (hroot : ∀ c ∈ h.envRoot, Ordinary c) (hnew : '\\' ∉ new) (hline : '\x00' ∉ line)
    (hr : (getCfgLineFromRegex h new active line buf s).1 = (.success, out)) :
    Leaves h.envRoot active new line out := by
  obtain ⟨reLinux, reTitle, reDataset, hlinux, htitle, hdataset⟩ := forms_of_success hr
  rw [getCfgLineFromRegex_eq hactive hroot hlinux htitle hdataset] at hr
  split at hr
  · rename_i hfits
    by_cases hsome : (titlePattern active).Occurs line
    · rw [rewriteEntry_title hline hsome] at hr
      exact title_rewrites hnew hline hfits.1 hsome hr
    by_cases hsome' : (linuxPattern active).Occurs line
    · rw [rewriteEntry_linux hline hsome hsome'] at hr
      exact linux_rewrites hnew hline hfits.2 hsome hsome' hr
    · rw [rewriteEntry_dataset hline hsome hsome'] at hr
      exact dataset_rewrites hnew hline hfits.1 hsome hsome' hr
  · cases hr

end Callback

end Zectl.Systemdboot.EntryRegex
