import Mathlib.Data.List.Basic
import Mathlib.Data.List.DropRight
import Mathlib.Data.List.Infix
import Mathlib.Data.List.Nodup

/-!
# File trees with links

A place is the list of the names that lead to it from the root. A path is walked one component
after the other, and a link on the way is replaced by its target, as often as the budget
allows. What is found where some places are hidden is found where they are not.
-/

namespace Zectl.Lib.FileTree

variable {Name Content : Type}

abbrev Loc (Name : Type) := List Name

/-- A component of a path. -/
inductive Comp (Name : Type)
  | here
  | up
  | name (n : Name)
deriving DecidableEq, Repr

/-- Where a link leads: from the root or from the directory it is in. -/
structure Target (Name : Type) where
  absolute : Bool
  comps : List (Comp Name)
deriving DecidableEq, Repr

inductive Node (Name Content : Type)
  | file (content : Content)
  | dir
  | link (target : Target Name)
  | special
deriving DecidableEq, Repr

/-- What is at each place. -/
abbrev Nodes (Name Content : Type) := Loc Name → Option (Node Name Content)

def Target.start (target : Target Name) (x : Loc Name) : Loc Name :=
  if target.absolute then [] else x

/-- Why a walk ends early; `absent` is a last name that is not in its directory. -/
inductive WalkError (Name : Type)
  | absent (x : Loc Name) (n : Name)
  | missing
  | notDirectory
  | tooManyLinks
deriving DecidableEq, Repr

/-- Nothing is there. -/
def WalkError.NoEntry : WalkError Name → Prop
  | .absent _ _ | .missing => True
  | _ => False

instance (e : WalkError Name) : Decidable e.NoEntry := by
  cases e <;> unfold WalkError.NoEntry <;> infer_instance

/-- A place and how many links may still be followed. -/
abbrev Walked (Name : Type) := Except (WalkError Name) (Loc Name × Nat)

/-- A walk up to the next link, which `follow` takes on from there. -/
def walkWith (node : Nodes Name Content) (follow : Loc Name → List (Comp Name) → Walked Name)
    (budget : Nat) : Loc Name → List (Comp Name) → Walked Name
  | x, [] => .ok (x, budget)
  | x, c :: rest =>
    match node x with
    | none => .error .missing
    | some .dir =>
      match c with
      | .here => walkWith node follow budget x rest
      | .up => walkWith node follow budget x.dropLast rest
      | .name n =>
        match node (x ++ [n]) with
        | none => .error (if rest.isEmpty then .absent x n else .missing)
        | some (.link target) => follow (target.start x) (target.comps ++ rest)
        | some _ => walkWith node follow budget (x ++ [n]) rest
    | some _ => .error .notDirectory

/-- The place a path leads to, with a budget of links. -/
def walk (node : Nodes Name Content) : Nat → Loc Name → List (Comp Name) → Walked Name
  | 0 => walkWith node (fun _ _ => .error .tooManyLinks) 0
  | budget + 1 => walkWith node (walk node budget) (budget + 1)

/-- Places that are hidden in `t` are all that `t` and `s` differ in. -/
def Within (t s : Nodes Name Content) : Prop := ∀ x, t x = none ∨ t x = s x

/-! ## Walks -/

section Walks
variable {node t s : Nodes Name Content} {budget left : Nat} {x y : Loc Name} {n : Name}
  {cs ds rest : List (Comp Name)} {e : WalkError Name} {r : Loc Name × Nat}

theorem Within.refl (s : Nodes Name Content) : Within s s := fun _ => .inr rfl

theorem Within.trans {u : Nodes Name Content} (htu : Within t u) (hus : Within u s) :
    Within t s := by
  intro x
  obtain hnone | heq := htu x
  · exact .inl hnone
  · rw [heq]
    exact hus x

theorem Within.eq_of_some {v : Node Name Content} (h : Within t s) (hx : t x = some v) :
    s x = some v := by
  obtain hnone | heq := h x
  · rw [hnone] at hx
    cases hx
  · rw [← heq]
    exact hx

@[simp] theorem walk_nil : walk node budget x [] = .ok (x, budget) := by
  cases budget <;> rfl

/-- The rest of a walk behind a link. -/
def followed (node : Nodes Name Content) : Nat → Loc Name → List (Comp Name) → Walked Name
  | 0, _, _ => .error .tooManyLinks
  | budget + 1, x, cs => walk node budget x cs

theorem walk_eq : walk node budget = walkWith node (followed node budget) budget := by
  cases budget <;> rfl

theorem walk_here (hx : node x = some .dir) :
    walk node budget x (.here :: rest) = walk node budget x rest := by
  simp only [walk_eq, walkWith, hx]

theorem walk_up (hx : node x = some .dir) :
    walk node budget x (.up :: rest) = walk node budget x.dropLast rest := by
  simp only [walk_eq, walkWith, hx]

theorem walk_absent (hx : node x = some .dir) (hn : node (x ++ [n]) = none) :
    walk node budget x [.name n] = .error (.absent x n) := by
  simp only [walk_eq, walkWith, hx, hn, List.isEmpty_nil, if_true]

theorem walk_link {target : Target Name} (hx : node x = some .dir)
    (hn : node (x ++ [n]) = some (.link target)) : walk node budget x (.name n :: rest) =
      followed node budget (target.start x) (target.comps ++ rest) := by
  simp only [walk_eq, walkWith, hx, hn]

theorem walk_name {v : Node Name Content} (hx : node x = some .dir)
    (hn : node (x ++ [n]) = some v) (hv : ∀ target, v ≠ .link target) :
    walk node budget x (.name n :: rest) = walk node budget (x ++ [n]) rest := by
  simp only [walk_eq, walkWith, hx, hn]

/-- A walk that ends at a place: what is looked at on the way, and how many links are left. -/
inductive Leads (node : Nodes Name Content) :
    Nat → Loc Name → List (Comp Name) → Loc Name → Nat → Prop
  | nil {b x} : Leads node b x [] x b
  | here {b x rest y l} (hx : node x = some .dir) (h : Leads node b x rest y l) :
      Leads node b x (.here :: rest) y l
  | up {b x rest y l} (hx : node x = some .dir) (h : Leads node b x.dropLast rest y l) :
      Leads node b x (.up :: rest) y l
  | name {b x rest y l n v} (hx : node x = some .dir) (hn : node (x ++ [n]) = some v)
      (hv : ∀ target, v ≠ .link target) (h : Leads node b (x ++ [n]) rest y l) :
      Leads node b x (.name n :: rest) y l
  | link {b x rest y l n target} (hx : node x = some .dir)
      (hn : node (x ++ [n]) = some (.link target))
      (h : Leads node b (target.start x) (target.comps ++ rest) y l) :
      Leads node (b + 1) x (.name n :: rest) y l

theorem leads_of_walkWith {follow : Loc Name → List (Comp Name) → Walked Name}
    (hfollow : ∀ {x n target rest y l}, node x = some .dir →
      node (x ++ [n]) = some (.link target) →
      follow (target.start x) (target.comps ++ rest) = .ok (y, l) →
      Leads node budget x (.name n :: rest) y l)
    (h : walkWith node follow budget x cs = .ok (y, left)) : Leads node budget x cs y left := by
  induction cs generalizing x with
  | nil =>
    cases h
    exact .nil
  | cons c cs ih =>
    cases hx : node x with
    | none =>
      simp only [walkWith, hx] at h
      cases h
    | some v =>
      cases v with
      | dir =>
        cases c with
        | here =>
          simp only [walkWith, hx] at h
          exact .here hx (ih h)
        | up =>
          simp only [walkWith, hx] at h
          exact .up hx (ih h)
        | name n =>
          simp only [walkWith, hx] at h
          split at h
          · cases h
          · exact hfollow hx ‹_› h
          · rename_i hlink hn
            exact .name hx hn (fun target heq => hlink target heq) (ih h)
      | file _ | link _ | special =>
        simp only [walkWith, hx] at h
        cases h

theorem leads_of_walk (h : walk node budget x cs = .ok (y, left)) :
    Leads node budget x cs y left := by
  induction budget generalizing x cs y left with
  | zero => exact leads_of_walkWith (fun _ _ h => by cases h) h
  | succ budget ih => exact leads_of_walkWith (fun hx hn h => .link hx hn (ih h)) h

theorem walk_of_leads (h : Leads node budget x cs y left) :
    walk node budget x cs = .ok (y, left) := by
  induction h with
  | nil => exact walk_nil
  | here hx _ ih => rw [walk_here hx, ih]
  | up hx _ ih => rw [walk_up hx, ih]
  | name hx hn hv _ ih => rw [walk_name hx hn hv, ih]
  | link hx hn _ ih =>
    rw [walk_link hx hn]
    exact ih

/-- A walk goes on from where its first part ends. -/
theorem Leads.append_walk (h : Leads node budget x cs y left) (ds : List (Comp Name)) :
    walk node budget x (cs ++ ds) = walk node left y ds := by
  induction h with
  | nil => rfl
  | here hx _ ih => rw [List.cons_append, walk_here hx, ih]
  | up hx _ ih => rw [List.cons_append, walk_up hx, ih]
  | name hx hn hv _ ih => rw [List.cons_append, walk_name hx hn hv, ih]
  | link hx hn _ ih =>
    rw [List.cons_append, walk_link hx hn, ← List.append_assoc]
    exact ih

theorem walk_append (h : walk node budget x cs = .ok (y, left)) (ds : List (Comp Name)) :
    walk node budget x (cs ++ ds) = walk node left y ds := (leads_of_walk h).append_walk ds

/-- The first part of a walk that ends at a place ends at one too. -/
theorem Leads.split (h : Leads node budget x rest y left) (hrest : rest = cs ++ ds) :
    ∃ z l, Leads node budget x cs z l ∧ Leads node l z ds y left := by
  induction h generalizing cs with
  | nil =>
    obtain ⟨rfl, rfl⟩ := List.append_eq_nil_iff.mp hrest.symm
    exact ⟨_, _, .nil, .nil⟩
  | here hx h ih =>
    cases cs with
    | nil =>
      obtain rfl : _ = ds := hrest
      exact ⟨_, _, .nil, .here hx h⟩
    | cons c cs =>
      obtain ⟨rfl, htail⟩ := List.cons.inj hrest
      obtain ⟨z, l, hz, hl⟩ := ih htail
      exact ⟨z, l, .here hx hz, hl⟩
  | up hx h ih =>
    cases cs with
    | nil =>
      obtain rfl : _ = ds := hrest
      exact ⟨_, _, .nil, .up hx h⟩
    | cons c cs =>
      obtain ⟨rfl, htail⟩ := List.cons.inj hrest
      obtain ⟨z, l, hz, hl⟩ := ih htail
      exact ⟨z, l, .up hx hz, hl⟩
  | name hx hn hv h ih =>
    cases cs with
    | nil =>
      obtain rfl : _ = ds := hrest
      exact ⟨_, _, .nil, .name hx hn hv h⟩
    | cons c cs =>
      obtain ⟨rfl, htail⟩ := List.cons.inj hrest
      obtain ⟨z, l, hz, hl⟩ := ih htail
      exact ⟨z, l, .name hx hn hv hz, hl⟩
  | link hx hn h ih =>
    cases cs with
    | nil =>
      obtain rfl : _ = ds := hrest
      exact ⟨_, _, .nil, .link hx hn h⟩
    | cons c cs =>
      obtain ⟨rfl, rfl⟩ := List.cons.inj hrest
      obtain ⟨z, l, hz, hl⟩ := ih (List.append_assoc _ _ _).symm
      exact ⟨z, l, .link hx hn hz, hl⟩

theorem walk_split (h : walk node budget x (cs ++ ds) = .ok (y, left)) :
    ∃ z l, walk node budget x cs = .ok (z, l) ∧ walk node l z ds = .ok (y, left) := by
  obtain ⟨z, l, hz, hl⟩ := (leads_of_walk h).split rfl
  exact ⟨z, l, walk_of_leads hz, walk_of_leads hl⟩

theorem walk_snoc {v : Node Name Content} (h : walk node budget x cs = .ok (y, left))
    (hy : node y = some .dir) (hn : node (y ++ [n]) = some v) (hv : ∀ target, v ≠ .link target) :
    walk node budget x (cs ++ [.name n]) = .ok (y ++ [n], left) := by
  rw [walk_append h, walk_name hy hn hv, walk_nil]

theorem dir_of_walk_cons {c : Comp Name} (h : walk node budget x (c :: rest) = .ok (y, left)) :
    node x = some .dir := by
  cases leads_of_walk h with
  | here hx _ => exact hx
  | up hx _ => exact hx
  | name hx _ _ _ => exact hx
  | link hx _ _ => exact hx

/-- A walk depends on the directories and links it meets, and on where it ends. -/
theorem Leads.of_same (h : Leads s budget x cs y left) (hy : t y = s y)
    (hdir : ∀ z, s z = some .dir → t z = some .dir)
    (hlink : ∀ z target, s z = some (.link target) → t z = some (.link target)) :
    Leads t budget x cs y left := by
  induction h with
  | nil => exact .nil
  | here hx _ ih => exact .here (hdir _ hx) (ih hy)
  | up hx _ ih => exact .up (hdir _ hx) (ih hy)
  | @name b x rest y l n v hx hn hv h ih =>
    have hsame : t (x ++ [n]) = some v := by
      cases rest with
      | nil =>
        cases h
        rw [hy, hn]
      | cons c rest =>
        have hstep := dir_of_walk_cons (walk_of_leads h)
        rw [hdir _ hstep, ← hstep, hn]
    exact .name (hdir _ hx) hsame hv (ih hy)
  | link hx hn _ ih => exact .link (hdir _ hx) (hlink _ _ hn) (ih hy)

/-- Names that are no links lead straight down. -/
theorem walk_names {ns : List Name}
    (h : walk node budget x (ns.map .name) = .ok (y, left)) :
    y = x ++ ns ∨ ∃ m target, m ≠ [] ∧ m <+: ns ∧ node (x ++ m) = some (.link target) := by
  induction ns generalizing x with
  | nil =>
    rw [List.map_nil, walk_nil] at h
    cases h
    exact .inl (List.append_nil y).symm
  | cons n ns ih =>
    rw [List.map_cons] at h
    cases leads_of_walk h with
    | name hx hn hv h =>
      obtain rfl | ⟨m, target, hm, hpre, hlink⟩ := ih (walk_of_leads h)
      · exact .inl (by rw [List.append_assoc, List.singleton_append])
      · rw [List.append_assoc, List.singleton_append] at hlink
        exact .inr ⟨n :: m, target, List.cons_ne_nil _ _, List.prefix_cons_inj n |>.mpr hpre, hlink⟩
    | link hx hn h => exact .inr ⟨[n], _, List.cons_ne_nil _ _, ⟨ns, rfl⟩, hn⟩

/-! ## Hidden places -/

/-- A walk among fewer places ends the same way, or where a place is hidden. -/
def Short (a b : Walked Name) : Prop := a = b ∨ ∃ e, a = .error e ∧ e.NoEntry

theorem walkWith_short {follow follow' : Loc Name → List (Comp Name) → Walked Name}
    (hwithin : Within t s) (hfollow : ∀ x cs, Short (follow x cs) (follow' x cs))
    (x : Loc Name) (cs : List (Comp Name)) :
    Short (walkWith t follow budget x cs) (walkWith s follow' budget x cs) := by
  induction cs generalizing x with
  | nil => exact .inl rfl
  | cons c cs ih =>
    cases hx : t x with
    | none =>
      simp only [walkWith, hx]
      exact .inr ⟨_, rfl, trivial⟩
    | some v =>
      have hx' := hwithin.eq_of_some hx
      cases v with
      | dir =>
        cases c with
        | here | up =>
          simp only [walkWith, hx, hx']
          exact ih _
        | name n =>
          cases hn : t (x ++ [n]) with
          | none =>
            simp only [walkWith, hx, hn]
            refine .inr ⟨_, rfl, ?_⟩
            split <;> trivial
          | some w =>
            have hn' := hwithin.eq_of_some hn
            cases w with
            | link target =>
              simp only [walkWith, hx, hx', hn, hn']
              exact hfollow _ _
            | file _ | dir | special =>
              simp only [walkWith, hx, hx', hn, hn']
              exact ih _
      | file _ | link _ | special =>
        simp only [walkWith, hx, hx']
        exact .inl rfl

theorem walk_short (hwithin : Within t s) (budget : Nat) (x : Loc Name) (cs : List (Comp Name)) :
    Short (walk t budget x cs) (walk s budget x cs) := by
  induction budget generalizing x cs with
  | zero => exact walkWith_short hwithin (fun _ _ => .inl rfl) x cs
  | succ budget ih => exact walkWith_short hwithin ih x cs

theorem walk_within (hwithin : Within t s) (h : walk t budget x cs = .ok (y, left)) :
    walk s budget x cs = .ok (y, left) := by
  obtain heq | ⟨e, herror, -⟩ := walk_short hwithin budget x cs
  · rw [← heq]
    exact h
  · rw [h] at herror
    cases herror

end Walks

/-! ## Trees -/

/-- What is at each place and what is in each directory: every place but the root is in a
directory that lists it, once. -/
structure DirTree (Name Content : Type) where
  node : Nodes Name Content
  names : Loc Name → List Name
  root : node [] = some .dir
  closed : ∀ x n, node (x ++ [n]) ≠ none → node x = some .dir
  mem_names : ∀ x n, n ∈ names x ↔ node (x ++ [n]) ≠ none
  nodup_names : ∀ x, (names x).Nodup

section Trees
variable (tree : DirTree Name Content) {x y : Loc Name} {n : Name}

theorem DirTree.dir_of_below {m : Loc Name} (hm : m ≠ []) (h : tree.node (x ++ m) ≠ none) :
    tree.node x = some .dir := by
  induction m using List.reverseRecOn with
  | nil => exact absurd rfl hm
  | append_singleton m n ih =>
    rw [← List.append_assoc] at h
    have hdir := tree.closed _ _ h
    by_cases hnil : m = []
    · rw [hnil, List.append_nil] at hdir
      exact hdir
    · exact ih hnil (by rw [hdir]; exact Option.some_ne_none _)

/-- Above a directory is a directory. -/
theorem DirTree.dir_above (h : tree.node x = some .dir) : tree.node x.dropLast = some .dir := by
  induction x using List.reverseRecOn with
  | nil => exact tree.root
  | append_singleton x m =>
    rw [List.dropLast_concat]
    exact tree.closed x m (by rw [h]; exact Option.some_ne_none _)

/-- A place with something below it is no empty directory. -/
theorem DirTree.names_ne_nil {m : Loc Name} (hm : m ≠ []) (h : tree.node (x ++ m) ≠ none) :
    tree.names x ≠ [] := by
  obtain ⟨n, m, rfl⟩ := List.exists_cons_of_ne_nil hm
  rw [← List.singleton_append, ← List.append_assoc] at h
  have hn : tree.node (x ++ [n]) ≠ none := by
    by_cases hnil : m = []
    · rw [hnil, List.append_nil] at h
      exact h
    · rw [tree.dir_of_below hnil h]
      exact Option.some_ne_none _
  exact List.ne_nil_of_mem ((tree.mem_names x n).mpr hn)

theorem DirTree.names_eq_nil (h : tree.node x ≠ some .dir) : tree.names x = [] := by
  rw [List.eq_nil_iff_forall_not_mem]
  intro n hn
  exact h (tree.closed x n ((tree.mem_names x n).mp hn))

variable [DecidableEq Name]

/-- The tree with a node put into a directory, in the place of a leaf or of nothing. -/
def DirTree.put (x : Loc Name) (n : Name) (v : Node Name Content) (hx : tree.node x = some .dir)
    (hv : tree.names (x ++ [n]) = []) : DirTree Name Content where
  node y := if y = x ++ [n] then some v else tree.node y
  names y := if y = x ∧ n ∉ tree.names x then n :: tree.names x else tree.names y
  root := by
    rw [if_neg (by simp)]
    exact tree.root
  closed y m h := by
    by_cases hm : y ++ [m] = x ++ [n]
    · obtain rfl := (List.append_inj' hm rfl).1
      rw [if_neg (by simp)]
      exact hx
    · rw [if_neg hm] at h
      rw [if_neg]
      · exact tree.closed y m h
      · intro hy
        rw [hy] at h
        have hmem := (tree.mem_names (x ++ [n]) m).mpr h
        rw [hv] at hmem
        cases hmem
  mem_names y m := by
    have hmem := tree.mem_names y m
    by_cases hy : y = x
    · subst hy
      by_cases hn : n ∈ tree.names y
      · rw [if_neg (fun h => h.2 hn), hmem]
        by_cases hm : m = n
        · subst hm
          rw [if_pos rfl]
          exact iff_of_true (hmem.mp hn) (Option.some_ne_none _)
        · rw [if_neg (by simpa using hm)]
      · rw [if_pos ⟨rfl, hn⟩, List.mem_cons, hmem]
        by_cases hm : m = n
        · subst hm
          rw [if_pos rfl]
          exact iff_of_true (.inl rfl) (Option.some_ne_none _)
        · rw [if_neg (by simpa using hm)]
          exact or_iff_right hm
    · rw [if_neg (fun h => hy h.1), if_neg, hmem]
      intro h
      exact hy (List.append_inj' h rfl).1
  nodup_names y := by
    split
    · rename_i h
      exact List.nodup_cons.mpr ⟨h.2, tree.nodup_names x⟩
    · exact tree.nodup_names y

/-- The tree without a leaf. -/
def DirTree.unlink (x : Loc Name) (n : Name) (hv : tree.names (x ++ [n]) = []) :
    DirTree Name Content where
  node y := if y = x ++ [n] then none else tree.node y
  names y := if y = x then (tree.names x).erase n else tree.names y
  root := by
    rw [if_neg (by simp)]
    exact tree.root
  closed y m h := by
    by_cases hm : y ++ [m] = x ++ [n]
    · exact absurd (if_pos hm) h
    · rw [if_neg hm] at h
      rw [if_neg]
      · exact tree.closed y m h
      · intro hy
        rw [hy] at h
        have hmem := (tree.mem_names (x ++ [n]) m).mpr h
        rw [hv] at hmem
        cases hmem
  mem_names y m := by
    have hmem := tree.mem_names y m
    by_cases hy : y = x
    · subst hy
      rw [if_pos rfl, (tree.nodup_names y).mem_erase_iff, hmem]
      by_cases hm : m = n
      · subst hm
        rw [if_pos rfl]
        exact iff_of_false (fun h => h.1 rfl) (fun h => h rfl)
      · rw [if_neg (by simpa using hm)]
        exact and_iff_right hm
    · rw [if_neg hy, if_neg, hmem]
      intro h
      exact hy (List.append_inj' h rfl).1
  nodup_names y := by
    split
    · exact (tree.nodup_names x).erase n
    · exact tree.nodup_names y

/-- The tree with another content of a file. -/
def DirTree.write (x : Loc Name) (content : Content) (h : ∃ c, tree.node x = some (.file c)) :
    DirTree Name Content where
  node y := if y = x then some (.file content) else tree.node y
  names := tree.names
  root := by
    obtain ⟨c, hc⟩ := h
    rw [if_neg, tree.root]
    intro hx
    rw [← hx, tree.root] at hc
    cases hc
  closed y m hm := by
    obtain ⟨c, hc⟩ := h
    have hdir : tree.node y = some .dir := by
      apply tree.closed y m
      by_cases hx : y ++ [m] = x
      · rw [hx, hc]
        exact Option.some_ne_none _
      · rw [if_neg hx] at hm
        exact hm
    rw [if_neg, hdir]
    intro hy
    rw [← hy, hdir] at hc
    cases hc
  mem_names y m := by
    obtain ⟨c, hc⟩ := h
    rw [tree.mem_names]
    by_cases hx : y ++ [m] = x
    · rw [if_pos hx, hx, hc]
      exact iff_of_true (Option.some_ne_none _) (Option.some_ne_none _)
    · rw [if_neg hx]
  nodup_names := tree.nodup_names

variable {tree} {v : Node Name Content} {hx : tree.node x = some .dir}
  {hv : tree.names (x ++ [n]) = []}

theorem DirTree.node_put_self : (tree.put x n v hx hv).node (x ++ [n]) = some v := if_pos rfl

theorem DirTree.node_put_of_ne (h : y ≠ x ++ [n]) : (tree.put x n v hx hv).node y = tree.node y :=
  if_neg h

theorem DirTree.node_unlink_self : (tree.unlink x n hv).node (x ++ [n]) = none := if_pos rfl

theorem DirTree.node_unlink_of_ne (h : y ≠ x ++ [n]) :
    (tree.unlink x n hv).node y = tree.node y := if_neg h

theorem DirTree.node_write_self {content : Content} {h : ∃ c, tree.node x = some (.file c)} :
    (tree.write x content h).node x = some (.file content) := if_pos rfl

theorem DirTree.node_write_of_ne {content : Content} {h : ∃ c, tree.node x = some (.file c)}
    (hy : y ≠ x) : (tree.write x content h).node y = tree.node y := if_neg hy

theorem DirTree.unlink_within : Within (tree.unlink x n hv).node tree.node := by
  intro y
  by_cases hy : y = x ++ [n]
  · exact .inl (if_pos hy)
  · exact .inr (if_neg hy)

/-- The tree of a root that is empty. -/
def DirTree.empty : DirTree Name Content where
  node x := if x = [] then some .dir else none
  names _ := []
  root := rfl
  closed x n h := absurd (if_neg (by simp)) h
  mem_names x n := by simp
  nodup_names _ := List.nodup_nil

omit [DecidableEq Name] in
theorem DirTree.node_empty (h : y ≠ []) : (empty : DirTree Name Content).node y = none := if_neg h

end Trees

end Zectl.Lib.FileTree
