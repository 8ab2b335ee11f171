import Mathlib.Logic.Relation

/-!
# State programs that move along a step relation

A program over a state is summarised by the steps it may take, not by its text.
`Moves step m` says that every run of `m` is a finite sequence of `step`s, so
whatever one step preserves is preserved by the whole program. The rules follow
the constructs programs are written with: return, sequence, branch and loop.
-/

namespace Zectl.Lib.StateRun

open Relation (ReflTransGen)

variable {σ : Type} {α β : Type}

/-- Every run of the program is a finite sequence of steps. -/
def Moves (step : σ → σ → Prop) (m : StateM σ α) : Prop :=
  ∀ s, ReflTransGen step s (m s).2

@[simp] theorem run_pure (a : α) (s : σ) : (pure a : StateM σ α) s = (a, s) := rfl

@[simp] theorem run_bind (x : StateM σ α) (f : α → StateM σ β) (s : σ) :
    (x >>= f) s = f (x s).1 (x s).2 := rfl

@[simp] theorem run_get (s : σ) : (get : StateM σ σ) s = (s, s) := rfl

@[simp] theorem run_modify (f : σ → σ) (s : σ) :
    (modify f : StateM σ PUnit) s = (⟨⟩, f s) := rfl

@[simp] theorem run_get_bind (f : σ → StateM σ β) (s : σ) :
    ((get : StateM σ σ) >>= f) s = f s s := rfl

/-- What a run of a sequence has in between. -/
theorem bind_run {x : StateM σ α} {f : α → StateM σ β} {s : σ} {r : β × σ}
    (h : (x >>= f) s = r) : ∃ a t, x s = (a, t) ∧ f a t = r :=
  ⟨(x s).1, (x s).2, rfl, h⟩

theorem run_eq_of_fst {x : StateM σ α} {s : σ} {a : α} (h : (x s).1 = a) :
    x s = (a, (x s).2) := by
  rw [← h]
  rfl

/-- Two sequences agree in a state when their parts do. -/
theorem run_bind_congr {x y : StateM σ α} {f g : α → StateM σ β} {s : σ} (hx : x s = y s)
    (hf : ∀ a t, x s = (a, t) → f a t = g a t) : (x >>= f) s = (y >>= g) s := by
  rw [run_bind, run_bind, ← hx]
  exact hf _ _ rfl

theorem run_ite (c : Prop) [Decidable c] (x y : StateM σ α) (s : σ) :
    (if c then x else y) s = if c then x s else y s := by
  split <;> rfl

section Rules
variable {step : σ → σ → Prop}

theorem moves_pure (a : α) : Moves step (pure a : StateM σ α) := fun _ => .refl

theorem moves_get : Moves step (get : StateM σ σ) := fun _ => .refl

theorem moves_bind {x : StateM σ α} {f : α → StateM σ β}
    (hx : Moves step x) (hf : ∀ a, Moves step (f a)) : Moves step (x >>= f) :=
  fun s => (hx s).trans (hf _ _)

/-- In a sequence whose second part needs a fact about the first part's result,
the fact may be taken from any run of the first part. -/
theorem moves_bind_of {x : StateM σ α} {f : α → StateM σ β} (hx : Moves step x)
    (hf : ∀ s, ReflTransGen step (x s).2 (f (x s).1 (x s).2).2) : Moves step (x >>= f) :=
  fun s => (hx s).trans (hf s)

theorem moves_ite {c : Prop} [Decidable c] {x y : StateM σ α}
    (hx : c → Moves step x) (hy : ¬c → Moves step y) : Moves step (if c then x else y) := by
  split
  · exact hx ‹_›
  · exact hy ‹_›

theorem moves_foldlM {f : β → α → StateM σ β} {l : List α} (hf : ∀ b, ∀ a ∈ l, Moves step (f b a))
    (b : β) : Moves step (l.foldlM f b) := by
  induction l generalizing b with
  | nil => exact moves_pure b
  | cons a rest ih =>
    rw [List.foldlM_cons]
    exact moves_bind (hf b a List.mem_cons_self) fun b' =>
      ih (fun b a ha => hf b a (List.mem_cons_of_mem _ ha)) b'

theorem moves_of_step {m : StateM σ α} (h : ∀ s, step s (m s).2) : Moves step m :=
  fun s => .single (h s)

theorem Moves.mono {step' : σ → σ → Prop} {m : StateM σ α} (h : Moves step m)
    (himp : ∀ s t, step s t → step' s t) : Moves step' m :=
  fun s => ReflTransGen.mono himp _ _ (h s)

end Rules

/-- What every step preserves holds after any number of steps. -/
theorem invariant_of_steps {step : σ → σ → Prop} (inv : σ → Prop)
    (hstep : ∀ s t, step s t → inv s → inv t) {s t : σ}
    (h : ReflTransGen step s t) (hs : inv s) : inv t := by
  induction h with
  | refl => exact hs
  | tail _ hst ih => exact hstep _ _ hst ih

/-- What every step preserves holds in every state on the way. -/
theorem steps_within {step : σ → σ → Prop} (inv : σ → Prop)
    (hstep : ∀ s t, step s t → inv s → inv t) {s t : σ} (h : ReflTransGen step s t) (hs : inv s) :
    ReflTransGen (fun u v => step u v ∧ inv v) s t := by
  induction h with
  | refl => exact .refl
  | tail hrun hst ih => exact ih.tail ⟨hst, hstep _ _ hst (invariant_of_steps inv hstep hrun hs)⟩

/-- A reflexive and transitive relation that contains every step contains every
sequence of steps. -/
theorem relation_of_steps {step : σ → σ → Prop} (rel : σ → σ → Prop) (hrefl : ∀ s, rel s s)
    (htrans : ∀ s t u, rel s t → rel t u → rel s u) (hstep : ∀ s t, step s t → rel s t)
    {s t : σ} (h : ReflTransGen step s t) : rel s t := by
  induction h with
  | refl => exact hrefl s
  | tail _ hst ih => exact htrans _ _ _ ih (hstep _ _ hst)

/-! ## The values of a program -/

/-- Every run of the program returns such a value. -/
def Yields (P : α → Prop) (m : StateM σ α) : Prop := ∀ s, P (m s).1

section Yields
variable {P : β → Prop} {Q : α → Prop}

theorem yields_pure {b : β} (hb : P b) : Yields P (pure b : StateM σ β) := fun _ => hb

theorem yields_bind {x : StateM σ α} {f : α → StateM σ β} (hx : Yields Q x)
    (hf : ∀ a, Q a → Yields P (f a)) : Yields P (x >>= f) := fun s => hf _ (hx s) _

theorem yields_seq {x : StateM σ α} {f : α → StateM σ β} (hf : ∀ a, Yields P (f a)) :
    Yields P (x >>= f) := fun _ => hf _ _

theorem yields_ite {c : Prop} [Decidable c] {x y : StateM σ β} (hx : c → Yields P x)
    (hy : ¬c → Yields P y) : Yields P (if c then x else y) := by
  split
  · exact hx ‹_›
  · exact hy ‹_›

end Yields

/-! ## Runs from related states -/

/-- From related states two programs return the same value and end in related states. -/
def Agree (R : σ → σ → Prop) (x y : StateM σ α) : Prop :=
  ∀ s t, R s t → (x s).1 = (y t).1 ∧ R (x s).2 (y t).2

section Agree
variable {R : σ → σ → Prop}

theorem agree_pure (a : α) : Agree R (pure a) (pure a) := fun _ _ h => ⟨rfl, h⟩

theorem agree_bind {x y : StateM σ α} {f g : α → StateM σ β} (hxy : Agree R x y)
    (hfg : ∀ a, Agree R (f a) (g a)) : Agree R (x >>= f) (y >>= g) := by
  intro s t hst
  obtain ⟨hvalue, hend⟩ := hxy s t hst
  rw [run_bind, run_bind, hvalue]
  exact hfg _ _ _ hend

/-- Programs that look at the state may go different ways only where the states differ. -/
theorem agree_get_bind {f g : σ → StateM σ β} (hfg : ∀ s t, R s t → Agree R (f s) (g t)) :
    Agree R (get >>= f) (get >>= g) :=
  fun s t hst => hfg s t hst s t hst

theorem agree_ite {c d : Prop} [Decidable c] [Decidable d] {x y x' y' : StateM σ α}
    (hcd : c ↔ d) (hx : Agree R x x') (hy : Agree R y y') :
    Agree R (if c then x else y) (if d then x' else y') := by
  by_cases hc : c
  · rw [if_pos hc, if_pos (hcd.mp hc)]
    exact hx
  · rw [if_neg hc, if_neg fun hd => hc (hcd.mpr hd)]
    exact hy

end Agree

end Zectl.Lib.StateRun
