import Zectl.Lib.StateRun

/-!
# Visiting a list of nodes in a changing state

A callback is run on each node that is still live at its turn and the visit stops
at the first nonzero code. The callback may change which nodes are live, so every
rule carries an invariant of the states between two callbacks.
-/

namespace Zectl.Lib.Visit

open Zectl.Lib.StateRun

variable {σ ν : Type}

def visit (live : σ → ν → Bool) (f : ν → StateM σ Int) : List ν → StateM σ Int
  | [] => pure 0
  | n :: rest => fun s =>
    if live s n then
      if (f n s).1 ≠ 0 then f n s else visit live f rest (f n s).2
    else visit live f rest s

section
variable {live : σ → ν → Bool} {f g : ν → StateM σ Int} {l : List ν} {s : σ}

theorem visit_cons (n : ν) (rest : List ν) :
    visit live f (n :: rest) s =
      if live s n then
        if (f n s).1 ≠ 0 then f n s else visit live f rest (f n s).2
      else visit live f rest s := rfl

theorem moves_visit {step : σ → σ → Prop} (hf : ∀ n ∈ l, Moves step (f n)) :
    Moves step (visit live f l) := by
  induction l with
  | nil => exact moves_pure 0
  | cons n rest ih =>
    intro s
    have hrest := ih fun m hm => hf m (List.mem_cons_of_mem n hm)
    have hn := hf n List.mem_cons_self s
    rw [visit_cons]
    split
    · split
      · exact hn
      · exact hn.trans (hrest _)
    · exact hrest s

theorem visit_keeps (inv : σ → Prop)
    (hf : ∀ n ∈ l, ∀ s, inv s → live s n → inv (f n s).2) (hs : inv s) :
    inv (visit live f l s).2 := by
  induction l generalizing s with
  | nil => exact hs
  | cons n rest ih =>
    have hrest := fun t (ht : inv t) => ih (fun m hm => hf m (List.mem_cons_of_mem n hm)) ht
    rw [visit_cons]
    split
    · rename_i hlive
      have hn := hf n List.mem_cons_self s hs hlive
      split
      · exact hn
      · exact hrest _ hn
    · exact hrest s hs

/-- A visit succeeds when every callback does. -/
theorem visit_zero (inv : σ → Prop)
    (hf : ∀ n ∈ l, ∀ s, inv s → live s n → (f n s).1 = 0 ∧ inv (f n s).2) (hs : inv s) :
    (visit live f l s).1 = 0 := by
  induction l generalizing s with
  | nil => rfl
  | cons n rest ih =>
    have hrest := fun t (ht : inv t) => ih (fun m hm => hf m (List.mem_cons_of_mem n hm)) ht
    rw [visit_cons]
    split
    · rename_i hlive
      obtain ⟨hzero, hn⟩ := hf n List.mem_cons_self s hs hlive
      rw [if_neg (by simpa using hzero)]
      exact hrest _ hn
    · exact hrest s hs

/-- After a successful visit every node is done, when a callback that succeeds makes
its node done, a node that is not live is done, and no callback undoes a node. -/
theorem visit_done (inv : σ → Prop) (done : ν → σ → Prop)
    (hinv : ∀ n ∈ l, ∀ s, inv s → live s n → inv (f n s).2)
    (hdead : ∀ n ∈ l, ∀ s, inv s → live s n = false → done n s)
    (hdone : ∀ n ∈ l, ∀ s, inv s → live s n → (f n s).1 = 0 → done n (f n s).2)
    (hstable : ∀ n ∈ l, ∀ m s, inv s → live s n → done m s → done m (f n s).2)
    (hs : inv s) (hzero : (visit live f l s).1 = 0) :
    ∀ n ∈ l, done n (visit live f l s).2 := by
  induction l generalizing s with
  | nil => exact fun n hn => absurd hn List.not_mem_nil
  | cons n rest ih =>
    have hmem : ∀ {m}, m ∈ rest → m ∈ n :: rest := fun hm => List.mem_cons_of_mem n hm
    have hrest : ∀ t, inv t → (visit live f rest t).1 = 0 →
        ∀ m ∈ rest, done m (visit live f rest t).2 := fun t ht hz =>
      ih (fun m hm => hinv m (hmem hm)) (fun m hm => hdead m (hmem hm))
        (fun m hm => hdone m (hmem hm)) (fun m hm => hstable m (hmem hm)) ht hz
    -- a node that is done stays done while the rest is visited
    have hkeep : ∀ t, inv t → done n t → done n (visit live f rest t).2 := by
      intro t ht hd
      refine (visit_keeps (fun u => inv u ∧ done n u) ?_ ⟨ht, hd⟩).2
      intro m hm u hu hlive
      exact ⟨hinv m (hmem hm) u hu.1 hlive, hstable m (hmem hm) n u hu.1 hlive hu.2⟩
    intro m hm
    rw [visit_cons] at hzero ⊢
    by_cases hlive : live s n = true
    · rw [if_pos hlive] at hzero ⊢
      by_cases hcode : (f n s).1 ≠ 0
      · rw [if_pos hcode] at hzero
        exact absurd hzero hcode
      · rw [if_neg hcode] at hzero ⊢
        have hn := hinv n List.mem_cons_self s hs hlive
        obtain rfl | hm := List.mem_cons.mp hm
        · exact hkeep _ hn (hdone m List.mem_cons_self s hs hlive (by simpa using hcode))
        · exact hrest _ hn hzero m hm
    · rw [if_neg hlive] at hzero ⊢
      obtain rfl | hm := List.mem_cons.mp hm
      · exact hkeep s hs (hdead m List.mem_cons_self s hs (by simpa using hlive))
      · exact hrest s hs hzero m hm

theorem visit_congr (inv : σ → Prop)
    (hfg : ∀ n ∈ l, ∀ s, inv s → live s n → f n s = g n s ∧ inv (f n s).2) (hs : inv s) :
    visit live f l s = visit live g l s := by
  induction l generalizing s with
  | nil => rfl
  | cons n rest ih =>
    have hrest := fun t (ht : inv t) => ih (fun m hm => hfg m (List.mem_cons_of_mem n hm)) ht
    rw [visit_cons, visit_cons]
    split
    · rename_i hlive
      obtain ⟨heq, hn⟩ := hfg n List.mem_cons_self s hs hlive
      rw [← heq]
      split
      · rfl
      · exact hrest _ hn
    · exact hrest s hs

end

/-! ## Visits of whole trees -/

section Tree
variable {κ : Type} {f : ν → StateM σ Int} {g : κ → StateM σ Int} {s t : σ}

/-- A visit of every node. -/
abbrev visitAll (f : ν → StateM σ Int) : List ν → StateM σ Int := visit (fun _ _ => true) f

theorem visitAll_cons_zero {n : ν} {rest : List ν} :
    visitAll f (n :: rest) s = (0, t) ↔ ∃ u, f n s = (0, u) ∧ visitAll f rest u = (0, t) := by
  rw [visitAll, visit_cons, if_pos rfl]
  rcases hn : f n s with ⟨r, u⟩
  by_cases hr : r = 0
  · subst hr
    rw [if_neg (by simp)]
    constructor
    · exact fun hrest => ⟨u, rfl, hrest⟩
    · rintro ⟨u', hu, hrest⟩
      cases hu
      exact hrest
  · rw [if_pos hr]
    constructor
    · intro hzero
      cases hzero
      exact absurd rfl hr
    · rintro ⟨u', hu, -⟩
      cases hu
      exact absurd rfl hr

theorem visitAll_append_zero {l l' : List ν} :
    visitAll f (l ++ l') s = (0, t) ↔ ∃ u, visitAll f l s = (0, u) ∧ visitAll f l' u = (0, t) := by
  induction l generalizing s with
  | nil =>
    constructor
    · exact fun hl' => ⟨s, rfl, hl'⟩
    · rintro ⟨u, hu, hl'⟩
      cases hu
      exact hl'
  | cons n rest ih =>
    rw [List.cons_append, visitAll_cons_zero]
    constructor
    · rintro ⟨u, hn, hrest⟩
      obtain ⟨v, hv, hl'⟩ := ih.mp hrest
      exact ⟨v, visitAll_cons_zero.mpr ⟨u, hn, hv⟩, hl'⟩
    · rintro ⟨v, hv, hl'⟩
      obtain ⟨u, hn, hrest⟩ := visitAll_cons_zero.mp hv
      exact ⟨u, hn, ih.mpr ⟨v, hrest, hl'⟩⟩

/-- A visit that fails ends where one callback failed. -/
theorem exists_of_visit_ne_zero {live : σ → ν → Bool} (inv : σ → Prop) {l : List ν} {r : Int}
    (hinv : ∀ n ∈ l, ∀ s, inv s → live s n → inv (f n s).2) (hs : inv s)
    (hrun : visit live f l s = (r, t)) (hr : r ≠ 0) :
    ∃ n ∈ l, ∃ u, inv u ∧ live u n ∧ f n u = (r, t) := by
  induction l generalizing s with
  | nil =>
    cases hrun
    exact absurd rfl hr
  | cons n rest ih =>
    have hrest : ∀ u, inv u → visit live f rest u = (r, t) →
        ∃ m ∈ n :: rest, ∃ u, inv u ∧ live u m ∧ f m u = (r, t) := by
      intro u hu hrun
      obtain ⟨m, hm, v, hv⟩ := ih (fun m hm => hinv m (List.mem_cons_of_mem n hm)) hu hrun
      exact ⟨m, List.mem_cons_of_mem n hm, v, hv⟩
    rw [visit_cons] at hrun
    split at hrun
    · rename_i hlive
      split at hrun
      · exact ⟨n, List.mem_cons_self, s, hs, hlive, hrun⟩
      · exact hrest _ (hinv n List.mem_cons_self s hs hlive) hrun
    · exact hrest s hs hrun

/-- When a callback succeeds as a visit of a list of its own does, a visit of nodes succeeds
as a visit of all these lists does. -/
theorem visitAll_flatMap_zero (inv : σ → Prop) (parts : ν → List κ) {l : List ν}
    (hf : ∀ n ∈ l, ∀ s, inv s → (∀ t, f n s = (0, t) ↔ visitAll g (parts n) s = (0, t)) ∧
      inv (f n s).2) (hs : inv s) (t : σ) :
    visitAll f l s = (0, t) ↔ visitAll g (l.flatMap parts) s = (0, t) := by
  induction l generalizing s with
  | nil => exact Iff.rfl
  | cons n rest ih =>
    obtain ⟨hn, hinv⟩ := hf n List.mem_cons_self s hs
    rw [List.flatMap_cons, visitAll_cons_zero, visitAll_append_zero]
    apply exists_congr
    intro u
    rw [hn u]
    apply and_congr_right
    intro hu
    rw [(hn u).mpr hu] at hinv
    exact ih (fun m hm => hf m (List.mem_cons_of_mem n hm)) hinv

end Tree

/-! ## Visits that collect -/

section Gather
variable {β : Type}

/-- As `visit`, with a value handed from one callback to the next. -/
def gather (f : ν → β → StateM σ (Int × β)) : List ν → β → StateM σ (Int × β)
  | [], acc => pure (0, acc)
  | n :: rest, acc => do
    let (r, acc) ← f n acc
    if r ≠ 0 then return (r, acc)
    gather f rest acc

variable {f : ν → β → StateM σ (Int × β)} {l : List ν}

theorem moves_gather {step : σ → σ → Prop} (hf : ∀ n ∈ l, ∀ acc, Moves step (f n acc)) (acc : β) :
    Moves step (gather f l acc) := by
  induction l generalizing acc with
  | nil => exact moves_pure _
  | cons n rest ih =>
    refine moves_bind (hf n List.mem_cons_self acc) fun r => ?_
    refine moves_ite (fun _ => moves_pure _) fun _ => ?_
    exact ih (fun m hm => hf m (List.mem_cons_of_mem n hm)) r.2

/-- What every callback keeps of the value, in states with an invariant of their own. -/
theorem gather_keeps_in (inv : σ → Prop) (P : β → Prop)
    (hf : ∀ n ∈ l, ∀ acc s, inv s → P acc → P (f n acc s).1.2 ∧ inv (f n acc s).2) {acc : β} {s : σ}
    (hs : inv s) (hacc : P acc) : P (gather f l acc s).1.2 := by
  induction l generalizing acc s with
  | nil => exact hacc
  | cons n rest ih =>
    obtain ⟨hn, ht⟩ := hf n List.mem_cons_self acc s hs hacc
    rcases hrun : f n acc s with ⟨⟨r, acc'⟩, t⟩
    rw [hrun] at hn ht
    rw [gather, run_bind, hrun]
    dsimp only
    split
    · exact hn
    · exact ih (fun m hm => hf m (List.mem_cons_of_mem n hm)) ht hn

theorem gather_keeps (P : β → Prop) (hf : ∀ n ∈ l, ∀ acc s, P acc → P (f n acc s).1.2) {acc : β}
    {s : σ} (hacc : P acc) : P (gather f l acc s).1.2 :=
  gather_keeps_in (fun _ => True) P (fun n hn acc s _ h => ⟨hf n hn acc s h, trivial⟩) trivial hacc

/-- When every callback succeeds and folds what it collects for its node into the
value, the visit folds in the collections of all nodes in turn. -/
theorem gather_folds {γ κ : Type} (inv : σ → Prop) (add : β → γ → β) (keys : ν → List κ)
    (key : γ → κ)
    (hf : ∀ n ∈ l, ∀ acc s, inv s → ∃ (t : σ) (items : List γ),
      f n acc s = ((0, items.foldl add acc), t) ∧ inv t ∧ items.map key = keys n) (acc : β) {s : σ} (hs : inv s) :
    ∃ (t : σ) (items : List γ), gather f l acc s = ((0, items.foldl add acc), t) ∧ inv t ∧
      items.map key = l.flatMap keys := by
  induction l generalizing acc s with
  | nil => exact ⟨s, [], rfl, hs, rfl⟩
  | cons n rest ih =>
    obtain ⟨t, items, hrun, ht, hkeys⟩ := hf n List.mem_cons_self acc s hs
    obtain ⟨u, items', hrun', hu, hkeys'⟩ :=
      ih (fun m hm => hf m (List.mem_cons_of_mem n hm)) (items.foldl add acc) ht
    refine ⟨u, items ++ items', ?_, hu, ?_⟩
    · rw [gather, run_bind, hrun]
      dsimp only
      rw [if_neg (by simp), hrun', List.foldl_append]
    · rw [List.map_append, hkeys, hkeys', List.flatMap_cons]

end Gather

end Zectl.Lib.Visit
