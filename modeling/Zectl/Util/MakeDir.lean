import Zectl.Util.CopyTree

/-!
# Making a directory and those above it

`libze_util_mkdir` makes what is missing of a path. Whatever its calls answer, nothing that is
there changes, and what is new is a directory.
-/

namespace Zectl.Util.MakeDir

open Zectl.Lib.StateRun Zectl.Lib.FileTree Zectl.Util.CString Zectl.Util.Traverse
open Zectl.Util.FileSystem Zectl.Util.CopyTree
open Zectl.Util.Files (enotdir)

/-- What is before a slash of a path, a first one apart. -/
theorem mem_slashPrefixes {before path q : CStr} : q ∈ slashPrefixes before path ↔
    q ≠ [] ∧ ∃ a rest, path = a ++ '/' :: rest ∧ q = before ++ a := by
  induction path generalizing before with
  | nil => simp [slashPrefixes]
  | cons c path ih =>
    have hlater : (∃ a rest, path = a ++ '/' :: rest ∧ q = before ++ [c] ++ a) ↔
        ∃ a rest, a ≠ [] ∧ c :: path = a ++ '/' :: rest ∧ q = before ++ a := by
      constructor
      · intro ⟨a, rest, hpath, hq⟩
        exact ⟨c :: a, rest, List.cons_ne_nil _ _, by rw [hpath, List.cons_append],
          by rw [hq, List.append_assoc, List.singleton_append]⟩
      · intro ⟨a, rest, hne, hpath, hq⟩
        obtain ⟨c', a, rfl⟩ := List.exists_cons_of_ne_nil hne
        obtain ⟨rfl, htail⟩ := List.cons.inj hpath
        exact ⟨a, rest, htail, by rw [hq, List.append_assoc, List.singleton_append]⟩
    have hsplit : (∃ a rest, c :: path = a ++ '/' :: rest ∧ q = before ++ a) ↔
        (c = '/' ∧ q = before) ∨ ∃ a rest, a ≠ [] ∧ c :: path = a ++ '/' :: rest ∧
          q = before ++ a := by
      constructor
      · intro ⟨a, rest, hpath, hq⟩
        by_cases hne : a = []
        · subst hne
          exact .inl ⟨(List.cons.inj hpath).1, by rw [hq, List.append_nil]⟩
        · exact .inr ⟨a, rest, hne, hpath, hq⟩
      · intro h
        obtain ⟨rfl, rfl⟩ | ⟨a, rest, -, hpath, hq⟩ := h
        · exact ⟨[], path, rfl, by rw [List.append_nil]⟩
        · exact ⟨a, rest, hpath, hq⟩
    rw [hsplit, ← hlater, slashPrefixes]
    split
    · rename_i hslash
      rw [List.mem_cons, ih]
      constructor
      · intro h
        obtain rfl | ⟨hq, hmore⟩ := h
        · exact ⟨hslash.2, .inl ⟨hslash.1, rfl⟩⟩
        · exact ⟨hq, .inr hmore⟩
      · intro ⟨hq, h⟩
        obtain ⟨-, rfl⟩ | hmore := h
        · exact .inl rfl
        · exact .inr ⟨hq, hmore⟩
    · rename_i hslash
      rw [ih]
      constructor
      · exact fun ⟨hq, hmore⟩ => ⟨hq, .inr hmore⟩
      · intro ⟨hq, h⟩
        obtain ⟨hc, rfl⟩ | hmore := h
        · exact absurd ⟨hc, hq⟩ hslash
        · exact ⟨hq, hmore⟩

/-- A directory is new, or nothing is. -/
def Grown (s t : Fs) : Prop :=
  ∀ x, t.node x = s.node x ∨ s.node x = none ∧ t.node x = some .dir

section Trees
variable {env : Env} {s t u : Fs} {path q : CStr} {x : Loc FileName} {n : FileName} {err : Nat}
  {paths : List CStr}

theorem Grown.refl (s : Fs) : Grown s s := fun _ => .inl rfl

theorem Grown.trans (hst : Grown s t) (htu : Grown t u) : Grown s u := by
  intro x
  obtain htu | ⟨hnone, hnew⟩ := htu x
  · rw [htu]
    exact hst x
  · obtain hst | ⟨-, hdir⟩ := hst x
    · exact .inr ⟨hst ▸ hnone, hnew⟩
    · rw [hdir] at hnone
      cases hnone

theorem Grown.within (h : Grown s t) : Within s.node t.node := by
  intro x
  obtain heq | ⟨hnone, -⟩ := h x
  · exact .inr heq.symm
  · exact .inl hnone

/-- A place that was absent is a directory, and nothing else has changed. -/
theorem grown_of_new (hn : s.node (x ++ [n]) = none) (hdir : t.node (x ++ [n]) = some .dir)
    (hframe : ∀ y, y ≠ x ++ [n] → t.node y = s.node y) : Grown s t := by
  intro y
  by_cases hy : y = x ++ [n]
  · exact .inr ⟨hy ▸ hn, hy ▸ hdir⟩
  · exact .inl (hframe y hy)

theorem grown_put {hx : s.node x = some .dir} {hv : s.names (x ++ [n]) = []}
    (hn : s.node (x ++ [n]) = none) : Grown s (s.put x n .dir hx hv) :=
  grown_of_new hn DirTree.node_put_self fun _ hy => DirTree.node_put_of_ne hy

/-- Where a path leads to a directory it does so in what has grown. -/
theorem Grown.leads (h : Grown s t) (hq : ∃ x, findPath env.cwd s q = .ok (x, .dir)) :
    ∃ x, findPath env.cwd t q = .ok (x, .dir) := by
  obtain ⟨x, hx⟩ := hq
  obtain ⟨l, hl, hdir⟩ := findPath_eq_ok_iff.mp hx
  exact ⟨x, findPath_eq_ok_iff.mpr ⟨l, resolvePath_within h.within hl, h.within.eq_of_some hdir⟩⟩

/-- `mkdir` makes the directory where its path is located, or it fails. -/
theorem mkdir_cases (hr : env.calls.mkdir path s = (err, t)) :
    err ≠ 0 ∧ t = s ∨ err = 0 ∧ ∃ x n hx hv, locatePath env.cwd s path = .ok (x, some (.name n)) ∧
      s.node (x ++ [n]) = none ∧ t = s.put x n .dir hx hv := by
  have hrun : env.mkdir path s = (err, t) := hr
  by_cases hfault : env.fault .mkdir path s = 0
  · rw [Env.mkdir, Env.faulty_run hfault] at hrun
    cases hlocate : locatePath env.cwd s path with
    | error code =>
      rw [hlocate] at hrun
      cases hrun
      exact .inl ⟨fun heq => locatePath_ne (heq ▸ hlocate), rfl⟩
    | ok found =>
      obtain ⟨x, last⟩ := found
      rw [hlocate] at hrun
      have hother : ∀ {m : StateM Fs Nat}, m = pure eexist → m s = (err, t) →
          err ≠ 0 ∧ t = s := by
        intro m hm hrun
        rw [hm] at hrun
        cases hrun
        exact ⟨Nat.succ_ne_zero _, rfl⟩
      cases last with
      | none => exact .inl (hother rfl hrun)
      | some c =>
        cases c with
        | here | up => exact .inl (hother rfl hrun)
        | name n =>
          dsimp only at hrun
          split at hrun
          · rename_i hnew
            cases hrun
            exact .inr ⟨rfl, x, n, hnew.1, hnew.2.2, rfl, hnew.2.1, rfl⟩
          · exact .inl (hother rfl hrun)
  · rw [Env.mkdir, Env.faulty_of_fault hfault] at hrun
    cases hrun
    exact .inl ⟨hfault, rfl⟩

theorem stat_directory (hr : env.calls.stat path s = (.ok .directory, t)) :
    t = s ∧ ∃ x, findPath env.cwd s path = .ok (x, .dir) := by
  have hrun : env.stat path s = (.ok .directory, t) := hr
  unfold Env.stat at hrun
  split at hrun
  · cases hrun
  · obtain ⟨hmode, hstate⟩ := Prod.mk.inj hrun
    refine ⟨hstate.symm, ?_⟩
    cases hfind : findPath env.cwd s path with
    | error code =>
      rw [hfind] at hmode
      cases hmode
    | ok found =>
      obtain ⟨x, v⟩ := found
      rw [hfind] at hmode
      cases v with
      | dir => exact ⟨x, rfl⟩
      | file _ | link _ | special => cases Except.ok.inj hmode

theorem mkdirExisting_grows (hr : mkdirExisting env.calls.toDirCalls path s = (err, t)) :
    Grown s t ∧ (err = 0 → ∃ x, findPath env.cwd t path = .ok (x, .dir)) := by
  obtain ⟨code, u, hmkdir, hthen⟩ := bind_run hr
  obtain ⟨hcode, rfl⟩ | ⟨rfl, x, n, hx, hv, hlocate, hnone, rfl⟩ := mkdir_cases hmkdir
  · rw [run_ite, if_neg hcode] at hthen
    obtain ⟨answer, w, hstat, hend⟩ := bind_run hthen
    have hsame : w = u := by
      have hstate : (env.stat path u).2 = u := Env.stat_state
      rw [show env.stat path u = (answer, w) from hstat] at hstate
      exact hstate
    subst hsame
    cases answer with
    | error code =>
      cases hend
      exact ⟨.refl _, fun hzero => absurd hzero (stat_error_ne hstat)⟩
    | ok mode =>
      cases mode with
      | directory =>
        cases hend
        exact ⟨.refl _, fun _ => (stat_directory hstat).2⟩
      | regular | other =>
        cases hend
        exact ⟨.refl _, fun hzero => absurd hzero (Nat.succ_ne_zero _)⟩
  · cases hthen
    have hgrown := @grown_put s x n hx hv hnone
    refine ⟨hgrown, fun _ => ?_⟩
    obtain ⟨l, hl⟩ := resolvePath_of_locate (locatePath_within hgrown.within hlocate)
      DirTree.node_put_self
    exact ⟨_, findPath_eq_ok_iff.mpr ⟨l, hl, DirTree.node_put_self⟩⟩

/-- Every path that was made leads to a directory, also behind what is made after it. -/
theorem mkdirAll_grows (hr : mkdirAll env.calls.toDirCalls paths s = (err, t)) :
    Grown s t ∧ (err = 0 → ∀ q ∈ paths, ∃ x, findPath env.cwd t q = .ok (x, .dir)) := by
  induction paths generalizing s with
  | nil =>
    cases hr
    exact ⟨.refl _, fun _ q hq => absurd hq List.not_mem_nil⟩
  | cons path rest ih =>
    obtain ⟨code, u, hfirst, hr⟩ := bind_run hr
    obtain ⟨hgrown, hmade⟩ := mkdirExisting_grows hfirst
    split at hr
    · rename_i hcode
      cases hr
      exact ⟨hgrown, fun hzero => absurd hzero hcode⟩
    · rename_i hcode
      obtain ⟨hmore, hrest⟩ := ih hr
      refine ⟨hgrown.trans hmore, fun hzero q hq => ?_⟩
      obtain rfl | hq := List.mem_cons.mp hq
      · exact hmore.leads (hmade (not_not.mp hcode))
      · exact hrest hzero q hq

/-- Whatever the links, the faults and the outcome, nothing changes but that directories are new;
after a success the path and all before a slash of it lead to directories. -/
theorem mkdir_grows (env : Env) (path : CStr) (s : Fs) :
    let made := libzeUtilMkdir env.calls.toDirCalls path s
    let buf := (strlcpy path libzeMaxPathLen).2
    Grown s made.2 ∧ (made.1 = 0 → ∀ q, q ≠ [] → q = buf ∨ (∃ rest, buf = q ++ '/' :: rest) →
      ∃ x, findPath env.cwd made.2 q = .ok (x, .dir)) := by
  obtain ⟨hgrown, hmade⟩ := @mkdirAll_grows env s _ _ _ rfl
  refine ⟨hgrown, fun hzero q hq hpart => hmade hzero q ?_⟩
  obtain rfl | ⟨rest, hrest⟩ := hpart
  · exact List.mem_append_right _ (List.mem_singleton_self _)
  · exact List.mem_append_left _ (mem_slashPrefixes.mpr ⟨hq, q, rest, hrest, rfl⟩)

end Trees

/-! ## Paths of names -/

/-- The paths of the directories on the way to what is below a path. -/
def pathsBelow (base : CStr) : Loc FileName → List CStr
  | [] => []
  | n :: rest => (base ++ '/' :: n.val) :: pathsBelow (base ++ '/' :: n.val) rest

theorem slashPrefixes_skip {before a rest : CStr} (ha : '/' ∉ a) :
    slashPrefixes before (a ++ rest) = slashPrefixes (before ++ a) rest := by
  induction a generalizing before with
  | nil => rw [List.nil_append, List.append_nil]
  | cons c a ih =>
    rw [List.mem_cons, not_or] at ha
    rw [List.cons_append, slashPrefixes, if_neg fun h => ha.1 h.1.symm, ih ha.2,
      List.append_assoc, List.singleton_append]

theorem slashPrefixes_names {base : CStr} (hbase : base ≠ []) (ns : Loc FileName) :
    slashPrefixes base (pathOf [] ns) ++ [base ++ pathOf [] ns] = base :: pathsBelow base ns := by
  induction ns generalizing base with
  | nil => simp [pathOf, slashPrefixes, pathsBelow]
  | cons n ns ih =>
    have hpath : pathOf [] (n :: ns) = '/' :: (n.val ++ pathOf [] ns) := rfl
    have hnext : base ++ ['/'] ++ n.val = base ++ '/' :: n.val := by simp
    have hlast : base ++ '/' :: (n.val ++ pathOf [] ns) = base ++ '/' :: n.val ++ pathOf [] ns := by
      simp
    rw [hpath, slashPrefixes, if_pos ⟨rfl, hbase⟩, slashPrefixes_skip n.property.2.2.2, hnext, hlast,
      List.cons_append, ih (by simp), pathsBelow]

theorem slashPrefixes_absolute {ns : Loc FileName} (hns : ns ≠ []) :
    slashPrefixes [] (pathOf [] ns) ++ [pathOf [] ns] = pathsBelow [] ns := by
  obtain ⟨n, ns, rfl⟩ := List.exists_cons_of_ne_nil hns
  have hpath : pathOf [] (n :: ns) = '/' :: (n.val ++ pathOf [] ns) := rfl
  rw [hpath, slashPrefixes, if_neg fun h => h.2 rfl, slashPrefixes_skip n.property.2.2.2]
  exact slashPrefixes_names (List.cons_ne_nil _ _) ns

section Names
variable {env : Env} {s t v : Fs} {base : CStr} {x : Loc FileName} {n : FileName} {node : FsNode}
  {rest : Loc FileName}

/-- What is located by its name is found there, unless it is a link. -/
theorem findPath_of_locate
    (h : locatePath env.cwd s (base ++ '/' :: n.val) = .ok (x, some (.name n)))
    (hn : s.node (x ++ [n]) = some node) (hlink : ∀ target, node ≠ .link target) :
    findPath env.cwd s (base ++ '/' :: n.val) = .ok (x ++ [n], node) := by
  obtain ⟨hpath, hdir, -, l, hwalk⟩ := locatePath_eq_ok_iff.mp h
  have hpieces : piecesOf (base ++ '/' :: n.val) = base.splitOn '/' ++ [n.val] := by
    rw [piecesOf, splitOn_entry n.property.2.2.2,
      List.rdropWhile_concat_neg _ _ _ (by simpa using n.property.1)]
  rw [hpieces, List.dropLast_concat] at hwalk
  refine findPath_eq_ok_iff.mpr ⟨l, ?_, hn⟩
  rw [resolvePath_eq_walk hpath, pathComps_entry n.property.2.2.2, component_val]
  exact walk_snoc hwalk hdir hn hlink

theorem locatePath_root : locatePath env.cwd s ('/' :: n.val) = .ok ([], some (.name n)) := by
  have hpieces : piecesOf ('/' :: n.val) = [[], n.val] := by
    rw [piecesOf, show '/' :: n.val = [] ++ '/' :: n.val from rfl, splitOn_entry n.property.2.2.2]
    exact List.rdropWhile_concat_neg _ [[]] _ (by simpa using n.property.1)
  refine locatePath_eq_ok_iff.mpr ⟨List.cons_ne_nil _ _, s.root, ?_, maxSymlinks, ?_⟩
  · rw [hpieces]
    exact congrArg some (component_val n).symm
  · rw [hpieces]
    exact walk_heres s.root 1

/-- What is on the way to a place is there as a directory or absent. -/
def Open (s : Fs) (x rest : Loc FileName) : Prop :=
  ∀ ms, ms <+: rest → s.node (x ++ ms) = none ∨ s.node (x ++ ms) = some .dir

/-- What is made on the way, where nothing else changes. -/
def Made (s t : Fs) (x rest : Loc FileName) : Prop :=
  (∀ ms, ms <+: rest → t.node (x ++ ms) = some .dir) ∧
    ∀ y, (∀ ms, ms <+: rest → y ≠ x ++ ms) → t.node y = s.node y

theorem prefix_cons_cases {ms : Loc FileName} (h : ms <+: n :: rest) :
    ms = [] ∨ ∃ ms', ms = n :: ms' ∧ ms' <+: rest := by
  cases ms with
  | nil => exact .inl rfl
  | cons m ms =>
    obtain ⟨rfl, hpre⟩ := List.cons_prefix_cons.mp h
    exact .inr ⟨ms, rfl, hpre⟩

theorem Open.cons (hx : s.node x = some .dir) (h : Open s (x ++ [n]) rest) :
    Open s x (n :: rest) := by
  intro ms hms
  obtain rfl | ⟨ms, rfl, hpre⟩ := prefix_cons_cases hms
  · rw [List.append_nil]
    exact .inr hx
  · have happ := h ms hpre
    rwa [List.append_assoc, List.singleton_append] at happ

/-- The way to a place goes on behind its first directory. -/
theorem Made.cons (hx : v.node x = some .dir) (hgrown : ∀ y, y ≠ x ++ [n] → v.node y = s.node y)
    (h : Made v t (x ++ [n]) rest) : Made s t x (n :: rest) := by
  obtain ⟨hmade, hframe⟩ := h
  constructor
  · intro ms hms
    obtain rfl | ⟨ms, rfl, hpre⟩ := prefix_cons_cases hms
    · rw [List.append_nil, hframe x, hx]
      intro ms _ heq
      have hlen := congrArg List.length heq
      simp only [List.length_append, List.length_singleton] at hlen
      omega
    · have happ := hmade ms hpre
      rwa [List.append_assoc, List.singleton_append] at happ
  · intro y hy
    rw [hframe y, hgrown y]
    · exact hy [n] (List.cons_prefix_cons.mpr ⟨rfl, List.nil_prefix⟩)
    · intro ms hms heq
      apply hy (n :: ms) (List.cons_prefix_cons.mpr ⟨rfl, hms⟩)
      rw [heq, List.append_assoc, List.singleton_append]

theorem mkdirExisting_there (hfaults : NoFaults env)
    (h : locatePath env.cwd s (base ++ '/' :: n.val) = .ok (x, some (.name n)))
    (hn : s.node (x ++ [n]) = some node) (hlink : ∀ target, node ≠ .link target) :
    mkdirExisting env.calls.toDirCalls (base ++ '/' :: n.val) s =
      (if node = .dir then 0 else enotdir, s) := by
  have hmkdir : env.calls.mkdir (base ++ '/' :: n.val) s = (eexist, s) :=
    Env.mkdir_exists (hfaults _ _ _) h (by rw [hn]; exact Option.some_ne_none _)
  have hstat : env.calls.stat (base ++ '/' :: n.val) s = (.ok (fileMode node), s) :=
    Env.stat_run (hfaults _ _ _) (findPath_of_locate h hn hlink)
  rw [mkdirExisting, run_bind, hmkdir, run_ite, if_neg (show ¬ eexist = 0 from Nat.succ_ne_zero _),
    run_bind, hstat]
  cases node with
  | dir => rfl
  | file _ | special => rfl
  | link target => exact absurd rfl (hlink target)

theorem Open.tail (h : Open s x (n :: rest)) : Open s (x ++ [n]) rest := by
  intro ms hms
  have happ := h (n :: ms) (List.cons_prefix_cons.mpr ⟨rfl, hms⟩)
  rwa [List.append_assoc, List.singleton_append]

/-- Nothing is below what is absent. -/
theorem open_absent (hn : s.node (x ++ [n]) = none) : Open s (x ++ [n]) rest := by
  intro ms _
  by_cases hms : ms = []
  · rw [hms, List.append_nil]
    exact .inl hn
  · exact .inl (node_below_absent (by rw [hn]; exact fun heq => by cases heq) hms)

/-- There is no link on an open way. -/
theorem Open.no_link (h : Open s x rest) (ms : Loc FileName) (target : Target FileName)
    (hms : ms <+: rest) : s.node (x ++ ms) ≠ some (.link target) := by
  intro heq
  obtain hnone | hdir := h ms hms
  · rw [heq] at hnone
    cases hnone
  · rw [heq] at hdir
    cases hdir

theorem Grown.opens (hgrown : Grown s t) (h : Open s x rest) : Open t x rest := by
  intro ms hms
  obtain heq | ⟨-, hnew⟩ := hgrown (x ++ ms)
  · rw [heq]
    exact h ms hms
  · exact .inr hnew

theorem mkdirExisting_new (hfaults : NoFaults env)
    (h : locatePath env.cwd s (base ++ '/' :: n.val) = .ok (x, some (.name n)))
    (hn : s.node (x ++ [n]) = none) :
    ∃ v, mkdirExisting env.calls.toDirCalls (base ++ '/' :: n.val) s = (0, v) ∧
      v.node (x ++ [n]) = some .dir ∧ ∀ y, y ≠ x ++ [n] → v.node y = s.node y := by
  obtain ⟨hx, hv, hrun⟩ := Env.mkdir_new (hfaults _ _ _) h hn
  have hmkdir : env.calls.mkdir (base ++ '/' :: n.val) s = (0, s.put x n .dir hx hv) := hrun
  refine ⟨s.put x n .dir hx hv, ?_, DirTree.node_put_self, fun y hy => DirTree.node_put_of_ne hy⟩
  rw [mkdirExisting, run_bind, hmkdir]
  rfl

/-- All of a way of names is made, or nothing is. -/
theorem mkdirAll_names (hfaults : NoFaults env) (hx : s.node x = some .dir)
    (hstart : ∀ n : FileName,
      locatePath env.cwd s (base ++ '/' :: n.val) = .ok (x, some (.name n)))
    (hlinks : ∀ ms target, ms <+: rest → s.node (x ++ ms) ≠ some (.link target)) :
    (∃ t, mkdirAll env.calls.toDirCalls (pathsBelow base rest) s = (0, t) ∧ Open s x rest ∧
      Made s t x rest) ∨
    mkdirAll env.calls.toDirCalls (pathsBelow base rest) s = (enotdir, s) ∧
      ¬ Open s x rest := by
  induction rest generalizing base x s with
  | nil =>
    refine .inl ⟨s, rfl, ?_, ?_, fun _ _ => rfl⟩
    · intro ms hms
      rw [List.prefix_nil.mp hms, List.append_nil]
      exact .inr hx
    · intro ms hms
      rw [List.prefix_nil.mp hms, List.append_nil]
      exact hx
  | cons n rest ih =>
    have hnext : ∀ {v : Fs}, Within s.node v.node → v.node (x ++ [n]) = some .dir → ∀ m : FileName,
        locatePath env.cwd v (base ++ '/' :: n.val ++ '/' :: m.val) =
          .ok (x ++ [n], some (.name m)) := by
      intro v hwithin hdir m
      obtain ⟨l, hl⟩ := resolvePath_of_locate (locatePath_within hwithin (hstart n)) hdir
      exact locatePath_entry hl hdir
    cases hn : s.node (x ++ [n]) with
    | none =>
      obtain ⟨v, hfirst, hdir, hframe⟩ := mkdirExisting_new hfaults (hstart n) hn
      have hgrown := grown_of_new hn hdir hframe
      have habsent := @open_absent s x n rest hn
      have hopen := hgrown.opens habsent
      rw [pathsBelow, mkdirAll, run_guard hfirst, if_neg (not_not.mpr rfl)]
      obtain ⟨t, hrun, -, hmade⟩ | ⟨-, hno⟩ := ih hdir (hnext hgrown.within hdir) hopen.no_link
      · have hxv : v.node x = some .dir := by
          rw [hframe x (by simp), hx]
        exact .inl ⟨t, hrun, habsent.cons hx, hmade.cons hxv hframe⟩
      · exact absurd hopen hno
    | some node =>
      have hlink : ∀ target, node ≠ .link target := by
        rintro target rfl
        exact hlinks [n] target (List.cons_prefix_cons.mpr ⟨rfl, List.nil_prefix⟩) hn
      have hfirst := mkdirExisting_there hfaults (hstart n) hn hlink
      rw [pathsBelow, mkdirAll, run_guard hfirst]
      by_cases hdir : node = .dir
      · subst hdir
        rw [if_pos rfl, if_neg (not_not.mpr rfl)]
        obtain ⟨t, hrun, hopen, hmade⟩ | ⟨hrun, hno⟩ :=
          ih hn (hnext (.refl _) hn) fun ms target hms => by
            have happ := hlinks (n :: ms) target (List.cons_prefix_cons.mpr ⟨rfl, hms⟩)
            rwa [List.append_assoc, List.singleton_append]
        · exact .inl ⟨t, hrun, hopen.cons hx, hmade.cons hx fun _ _ => rfl⟩
        · exact .inr ⟨hrun, fun hopen => hno hopen.tail⟩
      · rw [if_neg hdir, if_pos (show enotdir ≠ 0 from Nat.succ_ne_zero _)]
        refine .inr ⟨rfl, fun hopen => ?_⟩
        obtain hnone | hsome := hopen [n] (List.cons_prefix_cons.mpr ⟨rfl, List.nil_prefix⟩)
        · rw [hn] at hnone
          cases hnone
        · rw [hn] at hsome
          exact hdir (Option.some.inj hsome)

/-- Where no call fails and no link is on the way, an absolute path of names is made in full or
not at all: it is made unless something on its way is no directory. -/
theorem mkdir_names {ns : Loc FileName} (hfaults : NoFaults env) (hns : ns ≠ [])
    (hfit : (pathOf [] ns).length < libzeMaxPathLen)
    (hlinks : ∀ ms target, ms <+: ns → s.node ms ≠ some (.link target)) :
    let made := libzeUtilMkdir env.calls.toDirCalls (pathOf [] ns) s
    (made.1 = 0 ↔ Open s [] ns) ∧ (made.1 = 0 → Made s made.2 [] ns) ∧
      (made.1 ≠ 0 → made = (enotdir, s)) := by
  have hbuf : (strlcpy (pathOf [] ns) libzeMaxPathLen).2 = pathOf [] ns := take_of_fits hfit
  have hrun : libzeUtilMkdir env.calls.toDirCalls (pathOf [] ns) s =
      mkdirAll env.calls.toDirCalls (pathsBelow [] ns) s := by
    unfold libzeUtilMkdir
    rw [hbuf, slashPrefixes_absolute hns]
  dsimp only
  rw [hrun]
  obtain ⟨t, hall, hopen, hmade⟩ | ⟨hnone, hno⟩ :=
    @mkdirAll_names env s [] [] ns hfaults s.root (fun n => locatePath_root) hlinks
  · rw [hall]
    exact ⟨⟨fun _ => hopen, fun _ => rfl⟩, fun _ => hmade, fun hne => absurd rfl hne⟩
  · rw [hnone]
    have hcode : enotdir ≠ 0 := Nat.succ_ne_zero _
    exact ⟨⟨fun hzero => absurd hzero hcode, fun hopen => absurd hopen hno⟩,
      fun hzero => absurd hzero hcode, fun _ => rfl⟩

end Names

theorem mkdir_names_sample :
    let made := libzeUtilMkdir Env.faultless.calls.toDirCalls (pathOf [] [nameA, nameB]) sampleTree
    (made.1 = 0 ↔ Open sampleTree [] [nameA, nameB]) ∧
      (made.1 = 0 → Made sampleTree made.2 [] [nameA, nameB]) ∧
      (made.1 ≠ 0 → made = (enotdir, sampleTree)) := by
  refine mkdir_names (fun _ _ _ => rfl) (List.cons_ne_nil _ _) (by decide) fun ms target hms => ?_
  have hroot : sampleTree.node [] = some .dir := rfl
  have hdir : sampleTree.node [nameA] = some .dir := rfl
  have hnew : sampleTree.node [nameA, nameB] = none := rfl
  obtain rfl | ⟨ms, rfl, hrest⟩ := prefix_cons_cases hms
  · rw [hroot]
    exact fun heq => by cases heq
  obtain rfl | ⟨ms, rfl, hend⟩ := prefix_cons_cases hrest
  · rw [hdir]
    exact fun heq => by cases heq
  · rw [List.prefix_nil.mp hend, hnew]
    exact fun heq => by cases heq

end Zectl.Util.MakeDir
