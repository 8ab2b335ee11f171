import Mathlib.Data.Set.Insert
import Mathlib.Logic.Function.Basic

/-!
# Stores of named contents

A store keeps a content for each name, and lists some of the names. It changes by copying the
content of one name over that of another, by putting a content back that was saved elsewhere,
by dropping a name and by moving one. Copying lays a content over another one, so that what is
below may remain. A function of the contents shows a store as one of what it tells of them.
-/

namespace Zectl.Lib.NamedStore

variable {κ τ σ : Type}

@[ext] structure Store (κ τ : Type) where
  content : κ → τ
  listed : Set κ

inductive Change (κ τ : Type) where
  | keep
  | copy (source target : κ)
  | restore (saved : τ) (target : κ)
  | drop (target : κ)
  | move (source target : κ)

/-- The names a change is about. -/
def Change.About (k : κ) : Change κ τ → Prop
  | .keep => False
  | .copy _ target | .restore _ target | .drop target => k = target
  | .move source target => k = source ∨ k = target

/-- The change lays a content over another one. -/
def Change.Copies : Change κ τ → Prop
  | .copy _ _ | .restore _ _ => True
  | .keep | .drop _ | .move _ _ => False

/-- The store with what `f` tells of each content. -/
def Store.map (f : τ → σ) (w : Store κ τ) : Store κ σ where
  content k := f (w.content k)
  listed := w.listed

def Change.map (f : τ → σ) : Change κ τ → Change κ σ
  | .keep => .keep
  | .copy source target => .copy source target
  | .restore saved target => .restore (f saved) target
  | .drop target => .drop target
  | .move source target => .move source target

section Map
variable {f : τ → σ} {w : Store κ τ} {k : κ} {change : Change κ τ}

@[simp] theorem map_content : (w.map f).content k = f (w.content k) := rfl

@[simp] theorem map_listed : (w.map f).listed = w.listed := rfl

@[simp] theorem about_map : (change.map f).About k ↔ change.About k := by
  cases change <;> rfl

theorem change_map_id : change.map id = change := by
  cases change <;> rfl

end Map

section Apply
variable [DecidableEq κ] (merge : τ → τ → τ) (empty : τ)

def Store.apply (w : Store κ τ) : Change κ τ → Store κ τ
  | .keep => w
  | .copy source target =>
    { content := Function.update w.content target (merge (w.content source) (w.content target))
      listed := insert target w.listed }
  | .restore saved target =>
    { content := Function.update w.content target (merge saved (w.content target))
      listed := insert target w.listed }
  | .drop target =>
    { content := Function.update w.content target empty
      listed := w.listed \ {target} }
  | .move source target =>
    { content := Function.update (Function.update w.content target (w.content source)) source empty
      listed := insert target (w.listed \ {source}) }

/-- The changes one after the other. -/
def Store.run (w : Store κ τ) (changes : List (Change κ τ)) : Store κ τ :=
  changes.foldl (Store.apply merge empty) w

end Apply

section Laws
variable [DecidableEq κ] {merge : τ → τ → τ} {empty : τ} {w : Store κ τ} {k source target : κ}
  {change : Change κ τ} {changes : List (Change κ τ)}

theorem run_append (first second : List (Change κ τ)) :
    w.run merge empty (first ++ second) = (w.run merge empty first).run merge empty second :=
  List.foldl_append

@[simp] theorem run_concat : w.run merge empty (changes ++ [change]) =
    (w.run merge empty changes).apply merge empty change := by
  rw [run_append]
  rfl

@[simp] theorem content_copy : (w.apply merge empty (.copy source target)).content target =
    merge (w.content source) (w.content target) := Function.update_self _ _ _

@[simp] theorem content_restore {saved : τ} :
    (w.apply merge empty (.restore saved target)).content target = merge saved (w.content target) :=
  Function.update_self _ _ _

@[simp] theorem content_drop : (w.apply merge empty (.drop target)).content target = empty :=
  Function.update_self _ _ _

@[simp] theorem content_move_source :
    (w.apply merge empty (.move source target)).content source = empty := Function.update_self _ _ _

theorem content_move_target (hne : target ≠ source) :
    (w.apply merge empty (.move source target)).content target = w.content source :=
  (Function.update_of_ne hne _ _).trans (Function.update_self _ _ _)

theorem mem_copy : target ∈ (w.apply merge empty (.copy source target)).listed :=
  Set.mem_insert _ _

theorem mem_restore {saved : τ} : target ∈ (w.apply merge empty (.restore saved target)).listed :=
  Set.mem_insert _ _

theorem not_mem_drop : target ∉ (w.apply merge empty (.drop target)).listed := fun h => h.2 rfl

theorem not_mem_move (hne : target ≠ source) :
    source ∉ (w.apply merge empty (.move source target)).listed := by
  rintro (h | ⟨-, h⟩)
  · exact hne h.symm
  · exact h rfl

theorem mem_move : target ∈ (w.apply merge empty (.move source target)).listed :=
  Set.mem_insert _ _

/-! ## What a change is not about -/

theorem apply_content (h : ¬ change.About k) :
    (w.apply merge empty change).content k = w.content k := by
  cases change with
  | keep => rfl
  | copy source target | restore saved target | drop target => exact Function.update_of_ne h _ _
  | move source target =>
    obtain ⟨hsource, htarget⟩ := not_or.mp h
    exact (Function.update_of_ne hsource _ _).trans (Function.update_of_ne htarget _ _)

theorem apply_listed (h : ¬ change.About k) :
    k ∈ (w.apply merge empty change).listed ↔ k ∈ w.listed := by
  cases change with
  | keep => rfl
  | copy source target | restore saved target =>
    exact Set.mem_insert_iff.trans (or_iff_right h)
  | drop target => exact (Set.mem_sdiff _).trans (and_iff_left h)
  | move source target =>
    obtain ⟨hsource, htarget⟩ := not_or.mp h
    exact (Set.mem_insert_iff.trans (or_iff_right htarget)).trans
      ((Set.mem_sdiff _).trans (and_iff_left hsource))

/-! ## Names with a content are listed -/

/-- Only a name that is listed has a content. -/
def Paired (empty : τ) (w : Store κ τ) : Prop := ∀ k, w.content k ≠ empty → k ∈ w.listed

theorem Paired.apply (h : Paired empty w) : Paired empty (w.apply merge empty change) := by
  intro k hk
  by_cases habout : change.About k
  · cases change with
    | keep => exact habout.elim
    | copy source target | restore saved target =>
      subst habout
      exact Set.mem_insert _ _
    | drop target =>
      subst habout
      exact absurd content_drop hk
    | move source target =>
      by_cases hsource : k = source
      · subst hsource
        exact absurd content_move_source hk
      · rw [habout.resolve_left hsource]
        exact mem_move
  · rw [apply_content habout] at hk
    exact (apply_listed habout).mpr (h k hk)

theorem Paired.run (h : Paired empty w) : Paired empty (w.run merge empty changes) := by
  induction changes generalizing w with
  | nil => exact h
  | cons change rest ih => exact ih h.apply

/-! ## Exactly the listed names have a content -/

/-- The names that are listed are those with a content. -/
def Exact (empty : τ) (w : Store κ τ) : Prop := ∀ k, k ∈ w.listed ↔ w.content k ≠ empty

/-- What a change puts somewhere is not empty. -/
def Supplied (empty : τ) (w : Store κ τ) : Change κ τ → Prop
  | .keep | .drop _ => True
  | .copy source _ => source ∈ w.listed
  | .restore saved _ => saved ≠ empty
  | .move source target => target ≠ source ∧ source ∈ w.listed

theorem Exact.apply (h : Exact empty w) (hmerge : ∀ x y, x ≠ empty → merge x y ≠ empty)
    (hsupplied : Supplied empty w change) : Exact empty (w.apply merge empty change) := by
  intro k
  by_cases habout : change.About k
  · cases change with
    | keep => exact habout.elim
    | copy source target =>
      subst habout
      rw [content_copy]
      exact iff_of_true mem_copy (hmerge _ _ ((h source).mp hsupplied))
    | restore saved target =>
      subst habout
      rw [content_restore]
      exact iff_of_true mem_restore (hmerge _ _ hsupplied)
    | drop target =>
      subst habout
      exact iff_of_false not_mem_drop (not_not.mpr content_drop)
    | move source target =>
      obtain ⟨hne, hsource⟩ := hsupplied
      obtain rfl | rfl := habout
      · exact iff_of_false (not_mem_move hne) (not_not.mpr content_move_source)
      · rw [content_move_target hne]
        exact iff_of_true mem_move ((h source).mp hsource)
  · rw [apply_listed habout, apply_content habout]
    exact h k

/-! ## Changes that undo each other -/

theorem move_back (hne : source ≠ target) (hlisted : source ∈ w.listed)
    (hfresh : w.content target = empty) (hnew : target ∉ w.listed) :
    w.run merge empty [.move source target, .move target source] = w := by
  ext k
  · simp only [Store.run, List.foldl_cons, List.foldl_nil, Store.apply, Function.update_apply]
    by_cases htarget : k = target
    · rw [if_pos htarget, htarget, hfresh]
    by_cases hsource : k = source
    · rw [if_neg htarget, if_pos hsource, if_neg hne.symm, if_pos trivial, hsource]
    · rw [if_neg htarget, if_neg hsource, if_neg hsource, if_neg htarget]
  · show k ∈ insert source (insert target (w.listed \ {source}) \ {target}) ↔ k ∈ w.listed
    by_cases hsource : k = source
    · simp [hsource, hlisted]
    · by_cases htarget : k = target
      · simp [htarget, hnew, hne.symm]
      · simp [hsource, htarget]

end Laws

end Zectl.Lib.NamedStore
