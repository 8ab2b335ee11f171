import Zectl.Lib.Words
import Zectl.Systemdboot.EntryRegex

/-!
# The lines of a loader entry

A line is a keyword and its value. The name of an environment is the title or part of it, a
component of the path of the kernel, or part of a parameter. The callback looks for it with
expressions that are not anchored and whose order is not that of the keywords.
-/

namespace Zectl.Systemdboot.EntryLine

open Zectl.Lib.Words Zectl.Util.CString Zectl.Zfs.System Zectl.Libze.Init Zectl.Libze.Sample
open Zectl.Systemdboot.Loader Zectl.Systemdboot.Entry Zectl.Systemdboot.RewriteLine
open Zectl.Systemdboot.EntryRegex
open Zectl.Lib.RegexSyntax (Ordinary)

/-! ## What the lines of an entry say -/

/-- The first word of a line, what is in front of it and what is behind it. -/
structure Keyword (line b kw t : CStr) : Prop where
  line_eq : line = b ++ (kw ++ t)
  seps : ∀ c ∈ b, isSeparator c = true
  word : IsWord isSeparator kw
  ends : EndsHere isSeparator t

/-- The keywords whose values name an environment. -/
def keys : List CStr := ["title", "linux", "initrd", "options"]

/-- How the name is written in the value of a keyword. -/
def written (root name kw : CStr) : CStr :=
  if kw = ("title" : CStr) then name
  else if kw = ("options" : CStr) then datasetDir root ++ name
  else kernelName name

/-- A component of the path: it begins the value or is behind a slash, and it ends the value or a
slash is behind it. -/
def IsComponent (p q : CStr) : Prop :=
  ((∀ c ∈ p, isSeparator c = true) ∨ p.getLast? = some '/') ∧
  ((∀ c ∈ q, isSeparator c = true) ∨ q.head? = some '/')

/-- A parameter: a word of its own. -/
def IsParameter (w p q : CStr) : Prop :=
  IsWord isSeparator w ∧ (∃ c ∈ p.getLast?, isSeparator c = true) ∧ EndsHere isSeparator q

/-- Where in the value of a keyword the name stands for the environment. -/
def Here (root name kw p q : CStr) : Prop :=
  if kw = ("title" : CStr) then True
  else if kw = ("options" : CStr) then IsParameter (datasetDir root ++ name) p q
  else IsComponent p q

/-- The value names the environment. -/
def Names (root name kw t : CStr) : Prop :=
  ∃ p q, Here root name kw p q ∧ t = p ++ (written root name kw ++ q)

/-- Where the value of one of the keywords names the active environment, it names the new one, and
all else is what it was. -/
structure Renames (root active new line out : CStr) : Prop where
  named : ∀ b kw t, Keyword line b kw t → kw ∈ keys →
    (∃ p q, Here root active kw p q ∧ t = p ++ (written root active kw ++ q) ∧
      out = b ++ (kw ++ (p ++ (written root new kw ++ q)))) ∨
    (¬ Names root active kw t ∧ out = line)
  other : (∀ b kw t, Keyword line b kw t → kw ∉ keys) → out = line

/-! ## When the callback does this -/

/-- The value of a title names the environment. -/
def TitleNames (active t : CStr) : Prop :=
  EndsHere isSeparator t ∧ ∃ u v, t = u ++ (active ++ v)

/-- What is cut out begins the line. The middle is the name if this is a title with the name, and
else it is already the new one. -/
structure TitleCut (active new pre p m q : CStr) : Prop where
  first : pre = []
  named : TitleNames active (p ++ (m ++ q)) → m = active
  other : ¬ TitleNames active (p ++ (m ++ q)) → m = new

/-- What is cut out begins the line, and it names the environment or nothing changes. -/
def NamedCut (root active new pre h p m q : CStr) : Prop :=
  pre = [] ∧ (active = new ∨ EndsHere isSeparator (p ++ (m ++ q)) ∧ Here root active h p q)

/-- The first expression that finds something finds the name where the line names the
environment. If none does the line does not name it. -/
structure Meets (root active new line : CStr) : Prop where
  title : ∀ pre h p m q, (titlePattern active).Cut line pre h p m q →
    TitleCut active new pre p m q
  linux : ¬ (titlePattern active).Occurs line →
    ∀ pre h p m q, (linuxPattern active).Cut line pre h p m q →
      NamedCut root active new pre h p m q
  dataset : ¬ (titlePattern active).Occurs line → ¬ (linuxPattern active).Occurs line →
    ∀ pre h p m q, (datasetPattern root active).Cut line pre h p m q →
      NamedCut root active new pre h p m q
  kept : ¬ (titlePattern active).Occurs line → ¬ (linuxPattern active).Occurs line →
    ¬ (datasetPattern root active).Occurs line → ∀ b kw t, Keyword line b kw t → kw ∈ keys →
      Names root active kw t → active = new

/-- A title with a backslash in front of the name, and a new name that begins with a digit. -/
def Escaped (active new line : CStr) : Prop :=
  ∃ pre h p m q, (titlePattern active).Cut line pre h p m q ∧ Escapes p new

section Keywords
variable {root active new line out b b' kw kw' t t' : CStr}

theorem Keyword.unique (h : Keyword line b kw t) (h' : Keyword line b' kw' t') :
    b = b' ∧ kw = kw' ∧ t = t' := by
  obtain ⟨c, w, hw⟩ := List.exists_cons_of_ne_nil h.word.ne_nil
  obtain ⟨c', w', hw'⟩ := List.exists_cons_of_ne_nil h'.word.ne_nil
  have hc : isSeparator c = false := h.word.free c (hw ▸ List.mem_cons_self)
  have hc' : isSeparator c' = false := h'.word.free c' (hw' ▸ List.mem_cons_self)
  have hline := h.line_eq.symm.trans h'.line_eq
  have hcons := hline
  rw [hw, hw', List.cons_append, List.cons_append] at hcons
  obtain ⟨rfl, -⟩ := seps_append_inj h.seps h'.seps hc hc' hcons
  obtain ⟨hkw, ht⟩ := word_append_inj h.word h'.word h.ends h'.ends
    (List.append_cancel_left hline)
  exact ⟨rfl, hkw, ht⟩

/-- Two keywords with the same first letter are the same. -/
theorem key_eq_of_head (hkw : kw ∈ keys) (hkw' : kw' ∈ keys) (h : kw.head? = kw'.head?) :
    kw = kw' := by
  have hall : keys.all (fun u => keys.all fun v => u.head? != v.head? || u == v) = true := by
    decide +kernel
  have hone := List.all_eq_true.mp (List.all_eq_true.mp hall kw hkw) kw' hkw'
  simpa [h] using hone

theorem key_isWord (hkw : kw ∈ keys) : IsWord isSeparator kw := by
  have hall : keys.all (fun u => !u.isEmpty && u.all fun c => !isSeparator c) = true := by
    decide +kernel
  have hone := List.all_eq_true.mp hall kw hkw
  simp only [Bool.and_eq_true, List.all_eq_true] at hone
  constructor
  · simpa using hone.1
  · intro c hc
    simpa using hone.2 c hc

/-- A text that begins with one of the keywords, and with another one behind separators. -/
theorem key_first {h u v : CStr} (hh : h ∈ keys) (hkw : kw ∈ keys)
    (hb : ∀ c ∈ b, isSeparator c = true) (heq : h ++ u = b ++ (kw ++ v)) :
    b = [] ∧ kw = h ∧ u = v := by
  obtain ⟨c, w, hw⟩ := List.exists_cons_of_ne_nil (key_isWord hh).ne_nil
  obtain ⟨c', w', hw'⟩ := List.exists_cons_of_ne_nil (key_isWord hkw).ne_nil
  have hc : isSeparator c = false := (key_isWord hh).free c (hw ▸ List.mem_cons_self)
  have hc' : isSeparator c' = false := (key_isWord hkw).free c' (hw' ▸ List.mem_cons_self)
  have hcons : [] ++ c :: (w ++ u) = b ++ c' :: (w' ++ v) := by
    rw [hw, hw'] at heq
    exact heq
  obtain ⟨hb', htail⟩ := seps_append_inj (fun d hd => absurd hd List.not_mem_nil) hb hc hc' hcons
  obtain rfl : kw = h := by
    apply key_eq_of_head hkw hh
    rw [hw, hw', List.head?_cons, List.head?_cons, (List.cons.inj htail).1]
  subst hb'
  exact ⟨rfl, rfl, List.append_cancel_left heq⟩

/-- When the names are the same the line is kept. -/
theorem renames_self : Renames root active active line line where
  named b kw t hkeyword hkw := by
    by_cases hnames : Names root active kw t
    · obtain ⟨p, q, hhere, rfl⟩ := hnames
      exact Or.inl ⟨p, q, hhere, rfl, hkeyword.line_eq⟩
    · exact Or.inr ⟨hnames, rfl⟩
  other _ := rfl

/-- When no value names the environment the line is kept. -/
theorem renames_kept
    (hno : ∀ b kw t, Keyword line b kw t → kw ∈ keys → ¬ Names root active kw t) :
    Renames root active new line line where
  named b kw t hkeyword hkw := Or.inr ⟨hno b kw t hkeyword hkw, rfl⟩
  other _ := rfl

end Keywords

/-! ## A cut against the keyword -/

section Cuts
variable {P : Pattern} {root active new line pre h p m m' q p' q' t : CStr}

/-- A text that comes out as it was had its head in front: the middle stands behind it there too. -/
theorem cut_kept (hcut : P.Cut line pre h p m q) (hout : h ++ (p ++ (m' ++ q)) = line) :
    pre = [] ∧ m = m' := by
  have hline : pre ++ (h ++ p) ++ (m ++ q) = line := by
    rw [hcut.line_eq]
    simp only [List.append_assoc]
  have hlength : h.length ≤ (pre ++ (h ++ p)).length := by
    simp only [List.length_append]
    omega
  obtain ⟨w, hw⟩ := List.prefix_of_prefix_length_le ⟨_, hout⟩ ⟨_, hline⟩ hlength
  have hparts : P.Parts line [] h w m q := by
    refine ⟨?_, hcut.head, hcut.middle, hcut.rest⟩
    rw [← hline, ← hw, List.nil_append, List.append_assoc]
  have hle := hcut.first _ _ _ _ _ hparts
  obtain rfl : pre = [] := List.length_eq_zero_iff.mp (Nat.le_zero.mp hle)
  refine ⟨rfl, ?_⟩
  have heq := hcut.line_eq.symm.trans hout.symm
  rw [List.nil_append, List.append_cancel_left_eq, List.append_cancel_left_eq,
    List.append_cancel_right_eq] at heq
  exact heq

/-- The line is kept, or its keyword is the head of the cut and its value names the environment. -/
theorem renames_cases (hcut : P.Cut line pre h p m q) (hh : h ∈ keys)
    (hrenames : Renames root active new line (h ++ (p ++ (m' ++ q)))) :
    (pre = [] ∧ m = m' ∧ ∀ t, Keyword line [] h t → ¬ Names root active h t) ∨
      ∃ t p' q', Keyword line [] h t ∧ Here root active h p' q' ∧
        t = p' ++ (written root active h ++ q') ∧
        p ++ (m' ++ q) = p' ++ (written root new h ++ q') := by
  by_cases hkey : ∃ b kw t, Keyword line b kw t ∧ kw ∈ keys
  · obtain ⟨b, kw, t, hkeyword, hkw⟩ := hkey
    obtain ⟨p', q', hhere, ht, hout⟩ | ⟨hno, hout⟩ := hrenames.named b kw t hkeyword hkw
    · obtain ⟨rfl, rfl, hvalue⟩ := key_first hh hkw hkeyword.seps hout
      exact Or.inr ⟨t, p', q', hkeyword, hhere, ht, hvalue⟩
    · obtain ⟨hpre, hm⟩ := cut_kept hcut hout
      refine Or.inl ⟨hpre, hm, fun t' hkeyword' => ?_⟩
      obtain ⟨-, rfl, rfl⟩ := hkeyword.unique hkeyword'
      exact hno
  · have hout := hrenames.other fun b kw t hkeyword hkw => hkey ⟨b, kw, t, hkeyword, hkw⟩
    obtain ⟨hpre, hm⟩ := cut_kept hcut hout
    exact Or.inl ⟨hpre, hm, fun t hkeyword => absurd ⟨[], h, t, hkeyword, hh⟩ hkey⟩

/-- What is lost in front of the head would be missing in the length. -/
theorem cut_first {old repl : CStr} (hcut : P.Cut line pre h p m q) (hkeyword : Keyword line [] h t)
    (ht : t = p' ++ (old ++ q')) (hvalue : p ++ (m' ++ q) = p' ++ (repl ++ q'))
    (hlength : m.length + repl.length = old.length + m'.length) :
    pre = [] ∧ p ++ (m ++ q) = p' ++ (old ++ q') := by
  have hline := hcut.line_eq.symm.trans hkeyword.line_eq
  rw [ht, List.nil_append] at hline
  have hpre : pre = [] := by
    have hlengths := congrArg List.length hline
    have hvalues := congrArg List.length hvalue
    simp only [List.length_append] at hlengths hvalues
    exact List.length_eq_zero_iff.mp (by omega)
  subst hpre
  exact ⟨rfl, List.append_cancel_left hline⟩

/-- The keyword of a line that begins with the head of the cut. -/
theorem cut_keyword (hcut : P.Cut line [] h p m q) (hh : h ∈ keys)
    (hends : EndsHere isSeparator (p ++ (m ++ q))) : Keyword line [] h (p ++ (m ++ q)) where
  line_eq := hcut.line_eq
  seps := fun _ hc => absurd hc List.not_mem_nil
  word := key_isWord hh
  ends := hends

/-- A cut at the name has the effect that the line asks for. -/
theorem renames_of_namedCut (hcut : P.Cut line pre h p (written root active h) q) (hh : h ∈ keys)
    (hnamed : NamedCut root active new pre h p (written root active h) q) :
    Renames root active new line (h ++ (p ++ (written root new h ++ q))) := by
  obtain ⟨rfl, rfl | ⟨hends, hhere⟩⟩ := hnamed
  · have hline := hcut.line_eq
    rw [List.nil_append] at hline
    rw [← hline]
    exact renames_self
  · have hkeyword := cut_keyword hcut hh hends
    constructor
    · intro b kw t hkeyword' _
      obtain ⟨rfl, rfl, rfl⟩ := hkeyword.unique hkeyword'
      exact Or.inl ⟨p, q, hhere, rfl, rfl⟩
    · intro hother
      exact absurd hh (hother _ _ _ hkeyword)

end Cuts

/-! ## Two places for one name -/

section Places
variable {old repl root active new p q p' q' m : CStr}

theorem slash_free {x : CStr} (hx : '/' ∉ x) : ∀ c ∈ x, (c == '/') = false := by
  intro c hc
  rw [beq_eq_false_iff_ne]
  rintro rfl
  exact hx hc

/-- Replacing a text at either of two places gives the same, and it has no slash but stands in
front of one at the first place: then nothing is replaced. -/
theorem same_of_slash {w r : CStr} (hold : '/' ∉ old) (hrepl : '/' ∉ repl) (hw : w ≠ [])
    (h : old ++ '/' :: r = w ++ (old ++ q)) (h' : repl ++ '/' :: r = w ++ (repl ++ q)) :
    old = repl := by
  have hnot : ∀ {x : CStr}, '/' ∉ x → ∀ c ∈ x, (!(c == '/')) = true := by
    intro x hx c hc
    rw [slash_free hx c hc]
    rfl
  obtain ⟨v, rfl, -⟩ := again_behind (slash_free hold) (by decide) hw h
  rw [List.append_assoc, List.cons_append] at h'
  exact (seps_append_inj (hnot hrepl) (hnot hold) (by decide) (by decide) h').1.symm

/-- A component in front of a slash is the one that the line asks for. -/
theorem component_unique (hold : '/' ∉ old) (hrepl : '/' ∉ repl) (hq : q.head? = some '/')
    (hq' : (∀ c ∈ q', isSeparator c = true) ∨ q'.head? = some '/')
    (h : p ++ (old ++ q) = p' ++ (old ++ q')) (h' : p ++ (repl ++ q) = p' ++ (repl ++ q')) :
    old = repl ∨ p = p' := by
  obtain ⟨r, rfl⟩ := List.head?_eq_some_iff.mp hq
  obtain ⟨w, rfl, hrest⟩ | ⟨w, rfl, hrest⟩ := List.append_eq_append_iff.mp h
  · by_cases hw : w = []
    · rw [hw, List.append_nil]
      exact Or.inr rfl
    · rw [List.append_assoc] at h'
      exact Or.inl (same_of_slash hold hrepl hw hrest (List.append_cancel_left h'))
  · by_cases hw : w = []
    · rw [hw, List.append_nil]
      exact Or.inr rfl
    · rw [List.append_assoc] at h'
      obtain hseps | hslash := hq'
      · -- the slash of the first place is behind the second one
        have hmem : '/' ∈ old ++ q' := by
          rw [hrest]
          simp
        obtain hmem | hmem := List.mem_append.mp hmem
        · exact absurd hmem hold
        · exact absurd (hseps '/' hmem) (by decide)
      · obtain ⟨r', rfl⟩ := List.head?_eq_some_iff.mp hslash
        exact Or.inl (same_of_slash hold hrepl hw hrest (List.append_cancel_left h').symm)

/-- The last occurrence of a parameter is the one that the line asks for. -/
theorem parameter_unique (hactive : '/' ∉ active) (hnew : '/' ∉ new)
    (hword : IsWord isSeparator (datasetDir root ++ active)) (hq' : EndsHere isSeparator q')
    (hle : p'.length ≤ p.length)
    (h : p ++ (datasetDir root ++ active ++ q) = p' ++ (datasetDir root ++ active ++ q'))
    (h' : p ++ (datasetDir root ++ new ++ q) = p' ++ (datasetDir root ++ new ++ q')) :
    active = new ∨ p = p' := by
  obtain ⟨w, rfl, hrest⟩ | ⟨w, rfl, hrest⟩ := List.append_eq_append_iff.mp h
  · rw [List.length_append] at hle
    obtain rfl : w = [] := List.length_eq_zero_iff.mp (by omega)
    rw [List.append_nil]
    exact Or.inr rfl
  by_cases hw : w = []
  · rw [hw, List.append_nil]
    exact Or.inr rfl
  cases q' with
  | nil =>
    have hlength := congrArg List.length hrest
    have hpos := List.length_pos_iff.mpr hw
    simp only [List.length_append, List.length_nil] at hlength
    omega
  | cons c r =>
    obtain ⟨v, rfl, rfl⟩ := again_behind hword.free (hq' c rfl) hw hrest
    obtain ⟨e, he⟩ : ∃ e, datasetDir root = e ++ ['/'] := ⟨"zfs=" ++ root, rfl⟩
    rw [List.append_assoc] at h'
    have hvalue := List.append_cancel_left h'
    have hlast : (datasetDir root ++ new ++ c :: (v ++ e) ++ '/' :: active) ++ q =
        (datasetDir root ++ active ++ c :: (v ++ e) ++ '/' :: new) ++ q := by
      simp only [he, List.append_assoc, List.cons_append, List.nil_append] at hvalue ⊢
      exact hvalue.symm
    exact Or.inl (append_free_inj (slash_free hactive) (slash_free hnew) (by decide)
      (List.append_cancel_right hlast))

/-- What differs from the name differs where the name has a dot, and has none there. -/
theorem eq_of_dotted (h : Dotted active m) (hcount : active.count '.' ≤ m.count '.') :
    m = active := by
  have hle : ∀ {u v : CStr}, Dotted u v → v.count '.' ≤ u.count '.' := by
    intro u v huv
    induction huv with
    | nil => exact Nat.le_refl _
    | @cons a c u v hac _ ih =>
      obtain rfl | rfl := hac
      · rw [List.count_cons_self, List.count_cons]
        split
        · exact Nat.succ_le_succ ih
        · exact Nat.le_succ_of_le ih
      · rw [List.count_cons, List.count_cons]
        exact Nat.add_le_add_right ih _
  induction h with
  | nil => rfl
  | @cons a c u v hac htail ih =>
    have htail' := hle htail
    obtain rfl | rfl := hac
    · rw [List.count_cons_self, List.count_cons] at hcount
      split at hcount
      · rename_i hc
        rw [ih (Nat.le_of_succ_le_succ hcount), beq_iff_eq.mp hc]
      · omega
    · rw [List.count_cons, List.count_cons] at hcount
      rw [ih (Nat.le_of_add_le_add_right hcount)]

/-- If what the expression takes for the name is replaced and the result is that of the name, it
is the name. -/
theorem title_unique (hm : Dotted active m) (h : p ++ (m ++ q) = p' ++ (active ++ q'))
    (h' : p ++ (new ++ q) = p' ++ (new ++ q')) : m = active := by
  apply eq_of_dotted hm
  have hcount := congrArg (List.count '.') h
  have hcount' := congrArg (List.count '.') h'
  simp only [List.count_append] at hcount hcount'
  omega

end Places

/-! ## The three expressions -/

section Patterns
variable {root active new line pre h p m q out b t kw : CStr}

theorem written_title (name : CStr) : written root name "title" = name := by
  rw [written, if_pos rfl]

theorem written_options (name : CStr) :
    written root name "options" = datasetDir root ++ name := by
  rw [written, if_neg (by decide +kernel), if_pos rfl]

theorem here_title : Here root active "title" p q := by
  rw [Here, if_pos rfl]
  trivial

theorem here_options :
    Here root active "options" p q ↔ IsParameter (datasetDir root ++ active) p q := by
  rw [Here, if_neg (by decide +kernel), if_pos rfl]

theorem path_key (hh : h = ("linux" : CStr) ∨ h = ("initrd" : CStr)) :
    h ∈ keys ∧ h ≠ ("title" : CStr) ∧ h ≠ ("options" : CStr) := by
  obtain rfl | rfl := hh
  · decide +kernel
  · decide +kernel

theorem written_path (hh : h = ("linux" : CStr) ∨ h = ("initrd" : CStr)) (name : CStr) :
    written root name h = kernelName name := by
  obtain ⟨-, htitle, hoptions⟩ := path_key hh
  rw [written, if_neg htitle, if_neg hoptions]

theorem here_path (hh : h = ("linux" : CStr) ∨ h = ("initrd" : CStr)) :
    Here root active h p q ↔ IsComponent p q := by
  obtain ⟨-, htitle, hoptions⟩ := path_key hh
  rw [Here, if_neg htitle, if_neg hoptions]

theorem title_mem : ("title" : CStr) ∈ keys := List.mem_cons_self

theorem options_mem : ("options" : CStr) ∈ keys := by decide +kernel

/-- The names of two environments are written in different ways. -/
theorem written_inj (hkw : written root active kw = written root new kw) : active = new := by
  unfold written at hkw
  split at hkw
  · exact hkw
  · split at hkw
    · exact List.append_cancel_left hkw
    · exact List.append_cancel_left hkw

theorem titleNames_iff (hcut : (titlePattern active).Cut line [] h p m q) :
    TitleNames active (p ++ (m ++ q)) ↔
      ∃ t, Keyword line [] "title" t ∧ Names root active "title" t := by
  constructor
  · intro hnames
    obtain ⟨hends, u, v, huv⟩ := hnames
    obtain rfl : h = "title" := hcut.head
    refine ⟨_, cut_keyword hcut title_mem hends, u, v, here_title, ?_⟩
    rw [written_title, huv]
  · intro hnames
    obtain ⟨t, hkeyword, u, v, -, ht⟩ := hnames
    rw [written_title] at ht
    obtain rfl : h = "title" := hcut.head
    have hline := hcut.line_eq.symm.trans hkeyword.line_eq
    rw [List.nil_append, List.nil_append] at hline
    rw [List.append_cancel_left hline]
    exact ⟨hkeyword.ends, u, v, ht⟩

theorem title_renames_iff (hcut : (titlePattern active).Cut line pre h p m q) :
    Renames root active new line (h ++ (p ++ (new ++ q))) ↔ TitleCut active new pre p m q := by
  obtain rfl : h = "title" := hcut.head
  constructor
  · intro hrenames
    obtain ⟨rfl, rfl, hno⟩ | ⟨t, p', q', hkeyword, -, ht, hvalue⟩ :=
      renames_cases hcut title_mem hrenames
    · refine ⟨rfl, fun hnames => ?_, fun _ => rfl⟩
      obtain ⟨t, hkeyword, hnames⟩ := (@titleNames_iff root _ _ _ _ _ _ hcut).mp hnames
      exact absurd hnames (hno t hkeyword)
    · rw [written_title] at ht hvalue
      have hlength : m.length = active.length := hcut.middle.length_eq.symm
      obtain ⟨rfl, hrest⟩ := cut_first hcut hkeyword ht hvalue (by omega)
      refine ⟨rfl, fun _ => title_unique hcut.middle hrest hvalue, fun hno => ?_⟩
      apply absurd _ hno
      apply (@titleNames_iff root _ _ _ _ _ _ hcut).mpr
      refine ⟨t, hkeyword, p', q', here_title, ?_⟩
      rw [written_title, ht]
  · intro hmeets
    obtain ⟨rfl, hnamed, hother⟩ := hmeets
    have hline := hcut.line_eq
    rw [List.nil_append] at hline
    by_cases hnames : TitleNames active (p ++ (m ++ q))
    · obtain rfl := hnamed hnames
      have hnew : written root new "title" = new := written_title new
      have hold : written root m "title" = m := written_title m
      have hrenames := @renames_of_namedCut (titlePattern m) root m new line [] "title" p q
      rw [hnew, hold] at hrenames
      exact hrenames hcut title_mem ⟨rfl, Or.inr ⟨hnames.1, here_title⟩⟩
    · obtain rfl := hother hnames
      rw [← hline]
      apply renames_kept
      intro b kw t hkeyword hkw hno
      obtain ⟨rfl, rfl, -⟩ := key_first title_mem hkw hkeyword.seps (hline.symm.trans hkeyword.line_eq)
      exact hnames ((titleNames_iff hcut).mpr ⟨t, hkeyword, hno⟩)

/-- An expression whose middle is the name as it is written finds the place that the line asks
for, if that is unique. -/
theorem named_renames_iff {P : Pattern} (hh : h ∈ keys)
    (hcut : P.Cut line pre h p (written root active h) q)
    (hunique : ∀ p' q', Here root active h p' q' →
      p ++ (written root active h ++ q) = p' ++ (written root active h ++ q') →
      p ++ (written root new h ++ q) = p' ++ (written root new h ++ q') →
      active = new ∨ p = p') :
    Renames root active new line (h ++ (p ++ (written root new h ++ q))) ↔
      NamedCut root active new pre h p (written root active h) q := by
  constructor
  · intro hrenames
    obtain ⟨rfl, hwritten, -⟩ | ⟨t, p', q', hkeyword, hhere, ht, hvalue⟩ :=
      renames_cases hcut hh hrenames
    · exact ⟨rfl, Or.inl (written_inj hwritten)⟩
    · obtain ⟨rfl, hrest⟩ := cut_first hcut hkeyword ht hvalue rfl
      refine ⟨rfl, ?_⟩
      obtain hsame | rfl := hunique p' q' hhere hrest hvalue
      · exact Or.inl hsame
      · obtain rfl : q = q' := List.append_cancel_left (List.append_cancel_left hrest)
        rw [ht] at hkeyword
        exact Or.inr ⟨hkeyword.ends, hhere⟩
  · exact renames_of_namedCut hcut hh

theorem linux_renames_iff (hactive : '/' ∉ active) (hnew : '/' ∉ new)
    (hcut : (linuxPattern active).Cut line pre h p m q) :
    Renames root active new line (h ++ (p ++ (kernelName new ++ q))) ↔
      NamedCut root active new pre h p m q := by
  have hhead : h = ("linux" : CStr) ∨ h = ("initrd" : CStr) := hcut.head
  have hold : written root active h = kernelName active := written_path hhead active
  have hrepl : written root new h = kernelName new := written_path hhead new
  obtain rfl : m = kernelName active := hcut.middle
  have hslash : ∀ {name : CStr}, '/' ∉ name → '/' ∉ kernelName name := by
    intro name hname hmem
    obtain hmem | hmem := List.mem_append.mp hmem
    · exact absurd hmem (by decide)
    · exact hname hmem
  have hiff := @named_renames_iff root active new line pre h p q (linuxPattern active)
    (path_key hhead).1
  rw [hold, hrepl] at hiff
  apply hiff hcut
  intro p' q' hhere h h'
  obtain hsame | hp := component_unique (hslash hactive) (hslash hnew) hcut.rest
    ((here_path hhead).mp hhere).2 h h'
  · exact Or.inl (List.append_cancel_left hsame)
  · exact Or.inr hp

theorem dataset_renames_iff (hactive : '/' ∉ active) (hnew : '/' ∉ new)
    (hcut : (datasetPattern root active).Cut line pre h p m q) :
    Renames root active new line (h ++ (p ++ (datasetDir root ++ new ++ q))) ↔
      NamedCut root active new pre h p m q := by
  obtain rfl : h = "options" := hcut.head
  have hold : written root active "options" = datasetDir root ++ active := written_options active
  have hrepl : written root new "options" = datasetDir root ++ new := written_options new
  obtain rfl : m = datasetDir root ++ active := hcut.middle
  have hiff := @named_renames_iff root active new line pre "options" p q
    (datasetPattern root active) options_mem
  rw [hold, hrepl] at hiff
  apply hiff hcut
  intro p' q' hhere h h'
  obtain ⟨hword, -, hends⟩ := here_options.mp hhere
  apply parameter_unique hactive hnew hword hends _ h h'
  apply hcut.last p' _ q'
  exact ⟨by rw [hcut.line_eq, h], rfl, rfl, trivial⟩

theorem kept_renames_iff : Renames root active new line line ↔ ∀ b kw t, Keyword line b kw t →
    kw ∈ keys → Names root active kw t → active = new := by
  constructor
  · intro hrenames b kw t hkeyword hkw hnames
    obtain ⟨p, q, -, ht, hout⟩ | ⟨hno, -⟩ := hrenames.named b kw t hkeyword hkw
    · have hline := hkeyword.line_eq.symm.trans hout
      rw [ht, List.append_cancel_left_eq, List.append_cancel_left_eq, List.append_cancel_left_eq,
        List.append_cancel_right_eq] at hline
      exact written_inj hline
    · exact absurd hnames hno
  · intro hall
    by_cases hsame : active = new
    · subst hsame
      exact renames_self
    · apply renames_kept
      intro b kw t hkeyword hkw hnames
      exact hsame (hall b kw t hkeyword hkw hnames)

/-- The heads of a pattern are keywords and its middles are of one length. -/
structure Keyed (P : Pattern) : Prop where
  head : ∀ h, P.head h → h ∈ keys
  middle : ∀ m m', P.middle m → P.middle m' → m.length = m'.length

theorem title_keyed : Keyed (titlePattern active) where
  head h hh := by
    obtain rfl : h = "title" := hh
    exact title_mem
  middle m m' hm hm' := hm.length_eq.symm.trans hm'.length_eq

theorem linux_keyed : Keyed (linuxPattern active) where
  head _ hh := (path_key hh).1
  middle m m' hm hm' := by
    obtain rfl : m = kernelName active := hm
    obtain rfl : m' = kernelName active := hm'
    rfl

theorem dataset_keyed : Keyed (datasetPattern root active) where
  head h hh := by
    obtain rfl : h = "options" := hh
    exact options_mem
  middle m m' hm hm' := by
    obtain rfl : m = datasetDir root ++ active := hm
    obtain rfl : m' = datasetDir root ++ active := hm'
    rfl

/-- A line is cut in one way. -/
theorem Keyed.unique {P : Pattern} (hP : Keyed P) (hcut : P.Cut line pre h p m q)
    {pre' h' p' m' q' : CStr} (hcut' : P.Cut line pre' h' p' m' q') :
    pre = pre' ∧ h = h' ∧ p = p' ∧ m = m' ∧ q = q' := by
  have hline := hcut.line_eq.symm.trans hcut'.line_eq
  have hpre := Nat.le_antisymm (hcut.first _ _ _ _ _ hcut'.toParts)
    (hcut'.first _ _ _ _ _ hcut.toParts)
  obtain ⟨rfl, hrest⟩ := List.append_inj hline hpre
  have hkey := hP.head _ hcut.head
  have hkey' := hP.head _ hcut'.head
  obtain ⟨-, rfl, hvalue⟩ := key_first hkey hkey' (fun _ hc => absurd hc List.not_mem_nil) hrest
  have hp := Nat.le_antisymm (hcut'.last _ _ _ hcut.toParts) (hcut.last _ _ _ hcut'.toParts)
  obtain ⟨rfl, hmiddle⟩ := List.append_inj hvalue hp
  obtain ⟨rfl, rfl⟩ := List.append_inj hmiddle (hP.middle _ _ hcut.middle hcut'.middle)
  exact ⟨rfl, rfl, rfl, rfl, rfl⟩

theorem occurs_of_cut {P : Pattern} (hcut : P.Cut line pre h p m q) : P.Occurs line :=
  ⟨pre, h, p, m, q, hcut.toParts⟩

end Patterns

/-! ## The callback -/

section Callback
variable {h : Handle} {root active new line buf out : CStr} {s : Sys}

theorem renames_iff_meets (hactive : '/' ∉ active) (hnew : '/' ∉ new)
    (hleaves : Leaves root active new line out) (hescaped : ¬ Escaped active new line) :
    Renames root active new line out ↔ Meets root active new line := by
  cases hleaves with
  | @title pre h p m q _ hcut hout =>
    rw [hout fun hescapes => hescaped ⟨pre, h, p, m, q, hcut, hescapes⟩, title_renames_iff hcut]
    have hoccurs := occurs_of_cut hcut
    constructor
    · intro htitle
      constructor
      · intro pre' h' p' m' q' hcut'
        obtain ⟨rfl, -, rfl, rfl, rfl⟩ := title_keyed.unique hcut hcut'
        exact htitle
      · exact fun hno => absurd hoccurs hno
      · exact fun hno => absurd hoccurs hno
      · exact fun hno => absurd hoccurs hno
    · exact fun hmeets => hmeets.title _ _ _ _ _ hcut
  | linux hno hcut =>
    rw [linux_renames_iff hactive hnew hcut]
    have hoccurs := occurs_of_cut hcut
    constructor
    · intro hlinux
      constructor
      · exact fun _ _ _ _ _ hcut' => absurd (occurs_of_cut hcut') hno
      · intro _ pre' h' p' m' q' hcut'
        obtain ⟨rfl, rfl, rfl, rfl, rfl⟩ := linux_keyed.unique hcut hcut'
        exact hlinux
      · exact fun _ hno' => absurd hoccurs hno'
      · exact fun _ hno' => absurd hoccurs hno'
    · exact fun hmeets => hmeets.linux hno _ _ _ _ _ hcut
  | dataset hno hno' hcut =>
    rw [dataset_renames_iff hactive hnew hcut]
    have hoccurs := occurs_of_cut hcut
    constructor
    · intro hdataset
      constructor
      · exact fun _ _ _ _ _ hcut' => absurd (occurs_of_cut hcut') hno
      · exact fun _ _ _ _ _ _ hcut' => absurd (occurs_of_cut hcut') hno'
      · intro _ _ pre' h' p' m' q' hcut'
        obtain ⟨rfl, rfl, rfl, rfl, rfl⟩ := dataset_keyed.unique hcut hcut'
        exact hdataset
      · exact fun _ _ hno'' => absurd hoccurs hno''
    · exact fun hmeets => hmeets.dataset hno hno' _ _ _ _ _ hcut
  | kept hno hno' hno'' =>
    rw [kept_renames_iff]
    constructor
    · intro hkept
      constructor
      · exact fun _ _ _ _ _ hcut' => absurd (occurs_of_cut hcut') hno
      · exact fun _ _ _ _ _ _ hcut' => absurd (occurs_of_cut hcut') hno'
      · exact fun _ _ _ _ _ _ _ hcut' => absurd (occurs_of_cut hcut') hno''
      · exact fun _ _ _ => hkept
    · exact fun hmeets => hmeets.kept hno hno' hno''

/-- A character of the name of an environment. -/
def IsNameChar (c : Char) : Prop := Ordinary c ∧ c ≠ '/'

instance : DecidablePred IsNameChar := fun c => inferInstanceAs (Decidable (Ordinary c ∧ c ≠ '/'))

/-- The callback renames what the line asks for exactly where the first expression that finds
something finds that. -/
theorem renames_of_meets (hactive : ∀ c ∈ active, IsNameChar c) (hnew : ∀ c ∈ new, IsNameChar c)
    (hroot : ∀ c ∈ h.envRoot, Ordinary c) (hline : '\x00' ∉ line)
    (hr : (getCfgLineFromRegex h new active line buf s).1 = (.success, out)) :
    (Meets h.envRoot active new line ∧ ¬ Escaped active new line →
      Renames h.envRoot active new line out) ∧
    (Renames h.envRoot active new line out →
      Meets h.envRoot active new line ∨ Escaped active new line) := by
  have hslash : ∀ {name : CStr}, (∀ c ∈ name, IsNameChar c) → '/' ∉ name :=
    fun hname hmem => (hname '/' hmem).2 rfl
  have hescape : '\\' ∉ new := fun hmem => (hnew '\\' hmem).1.2.1 rfl
  have hleaves := getCfgLineFromRegex_leaves (fun c hc => (hactive c hc).1) hroot hescape hline hr
  by_cases hescaped : Escaped active new line
  · exact ⟨fun hmeets => absurd hescaped hmeets.2, fun _ => Or.inr hescaped⟩
  · have hiff := renames_iff_meets (hslash hactive) (hslash hnew) hleaves hescaped
    exact ⟨fun hmeets => hiff.mpr hmeets.1, fun hrenames => Or.inl (hiff.mp hrenames)⟩

theorem sample_names : (∀ c ∈ ("a" : CStr), IsNameChar c) ∧ (∀ c ∈ ("b" : CStr), IsNameChar c) ∧
    ∀ c ∈ (sampleHandle none true).envRoot, Ordinary c := by
  have hactive : ("a" : CStr).all (fun c => decide (IsNameChar c)) = true := by decide +kernel
  have hnew : ("b" : CStr).all (fun c => decide (IsNameChar c)) = true := by decide +kernel
  have hroot : (sampleHandle none true).envRoot.all (fun c => decide (Ordinary c)) = true := by
    decide +kernel
  exact ⟨fun c hc => of_decide_eq_true (List.all_eq_true.mp hactive c hc),
    fun c hc => of_decide_eq_true (List.all_eq_true.mp hnew c hc),
    fun c hc => of_decide_eq_true (List.all_eq_true.mp hroot c hc)⟩

theorem renames_of_meets_sample :
    (Meets (sampleHandle none true).envRoot "a" "b" "title a\n" ∧ ¬ Escaped "a" "b" "title a\n" →
      Renames (sampleHandle none true).envRoot "a" "b" "title a\n" "title b\n") ∧
    (Renames (sampleHandle none true).envRoot "a" "b" "title a\n" "title b\n" →
      Meets (sampleHandle none true).envRoot "a" "b" "title a\n" ∨ Escaped "a" "b" "title a\n") :=
  @renames_of_meets (sampleHandle none true) "a" "b" "title a\n" [] "title b\n" (sampleSys [])
    sample_names.1 sample_names.2.1 sample_names.2.2 (by decide +kernel) (by decide +kernel)

/-- The blanks in front of the keyword are lost. -/
theorem renames_not_when_indented :
    ¬ ∀ (h : Handle) (active new line buf out : CStr) (s : Sys),
      (∀ c ∈ active, IsNameChar c) → (∀ c ∈ new, IsNameChar c) →
      (∀ c ∈ h.envRoot, Ordinary c) → '\x00' ∉ line → line.length < libzeMaxPathLen →
      (getCfgLineFromRegex h new active line buf s).1 = (.success, out) →
      Renames h.envRoot active new line out := by
  intro hall
  have hrenames := hall (sampleHandle none true) "a" "b" "  title a\n" [] "title b\n" (sampleSys [])
    sample_names.1 sample_names.2.1 sample_names.2.2 (by decide +kernel) (by decide +kernel)
    (by decide +kernel)
  have hkeyword : Keyword "  title a\n" [' ', ' '] "title" [' ', 'a', '\n'] := by
    refine ⟨by decide +kernel, ?_, key_isWord title_mem, ?_⟩
    · intro c hc
      obtain rfl : c = ' ' := by simpa using hc
      rfl
    · intro c hc
      cases hc
      rfl
  obtain ⟨p, q, -, -, hout⟩ | ⟨-, hout⟩ := hrenames.named _ _ _ hkeyword title_mem
  · have hfirst : some 't' = some ' ' := congrArg List.head? hout
    cases hfirst
  · exact absurd hout (by decide +kernel)

end Callback

end Zectl.Systemdboot.EntryLine
