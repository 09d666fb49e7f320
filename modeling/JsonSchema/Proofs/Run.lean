import Mathlib.Data.List.Forall2
import Mathlib.Order.Basic

/-!
# Runs of stateful programs

A program that reads and changes a state and may stop with a fault is run from a world: a state
together with what a proof has recorded about it. Worlds are ordered, and a run that ends goes up in
this order. `After` states what holds of the end of a run, and that a stop is one that is allowed
from the world where the run began; there is one rule for each construct (`after_pure`,
`after_bind`, `after_throw`, `after_tryCatch`, `after_mapM`, `after_foldlM`).

What is allowed of a stop is a relation `stop` between the world at the beginning, the fault and the
state. It has to be `Descending`: a stop that is allowed from a later world is allowed from an
earlier one.
-/

namespace JsonSchema

/-! ## Computations that may fail -/

section Except

variable {ε α β : Type} {x : Except ε α} {f : α → Except ε β}

theorem except_bind_ok {b : β} (h : x >>= f = .ok b) : ∃ a, x = .ok a ∧ f a = .ok b := by
  cases x with
  | ok a => exact ⟨a, rfl, h⟩
  | error e => cases h

theorem except_bind_error {e : ε} (h : x >>= f = .error e) :
    x = .error e ∨ ∃ a, x = .ok a ∧ f a = .error e := by
  cases x with
  | ok a => exact .inr ⟨a, rfl, h⟩
  | error e' =>
    cases h
    exact .inl rfl

theorem toOption_ok {a : α} (h : x.toOption = some a) : x = .ok a := by
  cases x with
  | ok b =>
    cases h
    rfl
  | error e => cases h

theorem mapError_ok {ε' : Type} {wrap : ε → ε'} {a : α} (h : x.mapError wrap = .ok a) :
    x = .ok a := by
  cases x with
  | ok b =>
    cases h
    rfl
  | error e => cases h

theorem mapError_error {ε' : Type} {wrap : ε → ε'} {e : ε'} (h : x.mapError wrap = .error e) :
    ∃ e', x = .error e' ∧ e = wrap e' := by
  cases x with
  | ok a => cases h
  | error e' =>
    cases h
    exact ⟨e', rfl, rfl⟩

end Except

theorem exists_of_forall₂ {α β : Type} {R : α → β → Prop} {xs : List α} {ys : List β}
    (h : List.Forall₂ R xs ys) {x : α} (mem : x ∈ xs) : ∃ y ∈ ys, R x y := by
  induction h with
  | nil => cases mem
  | @cons x' y xs ys first rest ih =>
    rcases List.mem_cons.1 mem with rfl | later
    · exact ⟨y, List.mem_cons_self, first⟩
    · obtain ⟨y', mem', related⟩ := ih later
      exact ⟨y', List.mem_cons_of_mem _ mem', related⟩

/-! ## Worlds -/

/-- Stops that are allowed from a later world are allowed from an earlier one. -/
class Descending {Ω σ ε : Type} [Preorder Ω] (stop : Ω → ε → σ → Prop) : Prop where
  down : ∀ {w w' : Ω} {e : ε} {s : σ}, w ≤ w' → stop w' e s → stop w e s

/-- Every stop is allowed. -/
def Anyhow {Ω σ ε : Type} (_ : Ω) (_ : ε) (_ : σ) : Prop :=
  True

instance {Ω σ ε : Type} [Preorder Ω] : Descending (@Anyhow Ω σ ε) where
  down _ _ := trivial

section Rules

variable {Ω σ ε α β : Type} [Preorder Ω] {state : Ω → σ} {stop : Ω → ε → σ → Prop} {w : Ω}

/-- The result of a run that began in a world: it ended in a world above with `Q`, or stopped as it
may. -/
def Outcome (state : Ω → σ) (stop : Ω → ε → σ → Prop) (w : Ω) (Q : α → Ω → Prop) :
    Except ε α × σ → Prop
  | (.ok a, s) => ∃ w', w ≤ w' ∧ state w' = s ∧ Q a w'
  | (.error e, s) => stop w e s

/-- The run of a program from a world ends in a world above with `Q`, or stops as it may. It is not
unfolded, since that would run the program. -/
@[irreducible]
def After (state : Ω → σ) (stop : Ω → ε → σ → Prop) (act : ExceptT ε (StateM σ) α) (w : Ω)
    (Q : α → Ω → Prop) : Prop :=
  Outcome state stop w Q (act.run.run (state w))

variable {Q Q' : α → Ω → Prop} {R : β → Ω → Prop}

theorem after_of_ok {act : ExceptT ε (StateM σ) α} {a : α} {s : σ} {w' : Ω}
    (run : act.run.run (state w) = (.ok a, s)) (up : w ≤ w') (hs : state w' = s) (h : Q a w') :
    After state stop act w Q := by
  unfold After
  rw [run]
  exact ⟨w', up, hs, h⟩

theorem after_of_error {act : ExceptT ε (StateM σ) α} {e : ε} {s : σ}
    (run : act.run.run (state w) = (.error e, s)) (h : stop w e s) :
    After state stop act w Q := by
  unfold After
  rw [run]
  exact h

/-- Where every stop is allowed, only the ends count. -/
theorem after_anyhow {act : ExceptT ε (StateM σ) α}
    (h : ∀ a s, act.run.run (state w) = (.ok a, s) → ∃ w', w ≤ w' ∧ state w' = s ∧ Q a w') :
    After state Anyhow act w Q := by
  cases run : act.run.run (state w) with
  | mk result s =>
    cases result with
    | ok a =>
      obtain ⟨w', up, hs, hq⟩ := h a s run
      exact after_of_ok run up hs hq
    | error e => exact after_of_error run trivial

theorem After.of_ok {act : ExceptT ε (StateM σ) α} {a : α} {s : σ}
    (h : After state stop act w Q) (run : act.run.run (state w) = (.ok a, s)) :
    ∃ w', w ≤ w' ∧ state w' = s ∧ Q a w' := by
  unfold After at h
  rw [run] at h
  exact h

theorem After.of_error {act : ExceptT ε (StateM σ) α} {e : ε} {s : σ}
    (h : After state stop act w Q) (run : act.run.run (state w) = (.error e, s)) : stop w e s := by
  unfold After at h
  rw [run] at h
  exact h

theorem after_pure {a : α} (h : Q a w) : After state stop (pure a) w Q :=
  after_of_ok rfl le_rfl rfl h

theorem after_throw {e : ε} (h : stop w e (state w)) : After state stop (throw e) w Q :=
  after_of_error rfl h

theorem after_set {Q : PUnit → Ω → Prop} {s : σ} {w' : Ω} (up : w ≤ w') (hs : state w' = s)
    (h : Q ⟨⟩ w') : After state stop (set s : ExceptT ε (StateM σ) PUnit) w Q :=
  after_of_ok rfl up hs h

theorem after_mono {act : ExceptT ε (StateM σ) α} (h : After state stop act w Q)
    (ok : ∀ a w', w ≤ w' → Q a w' → Q' a w') : After state stop act w Q' := by
  cases run : act.run.run (state w) with
  | mk result s =>
    cases result with
    | ok a =>
      obtain ⟨w', up, hs, hq⟩ := h.of_ok run
      exact after_of_ok run up hs (ok a w' up hq)
    | error e => exact after_of_error run (h.of_error run)

/-- More stops may be allowed. -/
theorem after_stop {stop' : Ω → ε → σ → Prop} {act : ExceptT ε (StateM σ) α}
    (h : After state stop act w Q) (weaker : ∀ e s, stop w e s → stop' w e s) :
    After state stop' act w Q := by
  cases run : act.run.run (state w) with
  | mk result s =>
    cases result with
    | ok a =>
      obtain ⟨w', up, hs, hq⟩ := h.of_ok run
      exact after_of_ok run up hs hq
    | error e => exact after_of_error run (weaker e s (h.of_error run))

theorem run_bind_ok {act : ExceptT ε (StateM σ) α} {next : α → ExceptT ε (StateM σ) β} {s s' : σ}
    {a : α} (run : act.run.run s = (.ok a, s')) :
    (act >>= next).run.run s = (next a).run.run s' := by
  simp only [ExceptT.run_bind, StateT.run_bind, run]
  rfl

theorem run_bind_error {act : ExceptT ε (StateM σ) α} {next : α → ExceptT ε (StateM σ) β}
    {s s' : σ} {e : ε} (run : act.run.run s = (.error e, s')) :
    (act >>= next).run.run s = (.error e, s') := by
  simp only [ExceptT.run_bind, StateT.run_bind, run]
  rfl

/-- A bound program ends where its rest ends after the end of its first part. -/
theorem run_bind_eq_ok {act : ExceptT ε (StateM σ) α} {next : α → ExceptT ε (StateM σ) β}
    {s s' : σ} {b : β} (run : (act >>= next).run.run s = (.ok b, s')) :
    ∃ a s₁, act.run.run s = (.ok a, s₁) ∧ (next a).run.run s₁ = (.ok b, s') := by
  cases first : act.run.run s with
  | mk result s₁ =>
    cases result with
    | ok a =>
      rw [run_bind_ok first] at run
      exact ⟨a, s₁, rfl, run⟩
    | error e =>
      rw [run_bind_error first] at run
      cases run

theorem run_tryCatch_ok {act : ExceptT ε (StateM σ) α} {handle : ε → ExceptT ε (StateM σ) α}
    {s s' : σ} {a : α} (run : act.run.run s = (.ok a, s')) :
    (tryCatch act handle).run.run s = (.ok a, s') := by
  simp only [ExceptT.run_tryCatch, StateT.run_bind, run]
  rfl

theorem run_tryCatch_error {act : ExceptT ε (StateM σ) α} {handle : ε → ExceptT ε (StateM σ) α}
    {s s' : σ} {e : ε} (run : act.run.run s = (.error e, s')) :
    (tryCatch act handle).run.run s = (handle e).run.run s' := by
  simp only [ExceptT.run_tryCatch, StateT.run_bind, run]
  rfl

/-- Reading the state first. -/
theorem after_get_bind {next : σ → ExceptT ε (StateM σ) β}
    (rest : After state stop (next (state w)) w R) : After state stop (get >>= next) w R := by
  unfold After at rest ⊢
  exact rest

section Bind

variable [Descending stop]

/-- The outcome of a rest that runs from a later world. -/
theorem Outcome.from {w' : Ω} (up : w ≤ w') {result : Except ε α × σ}
    (h : Outcome state stop w' Q result) : Outcome state stop w Q result := by
  obtain ⟨result, s⟩ := result
  cases result with
  | ok a =>
    obtain ⟨w'', up', hs, hq⟩ := h
    exact ⟨w'', le_trans up up', hs, hq⟩
  | error e =>
    have allowed : stop w' e s := h
    show stop w e s
    exact Descending.down up allowed

theorem after_bind {act : ExceptT ε (StateM σ) α} {next : α → ExceptT ε (StateM σ) β}
    (first : After state stop act w Q)
    (rest : ∀ a w', w ≤ w' → Q a w' → After state stop (next a) w' R) :
    After state stop (act >>= next) w R := by
  cases run : act.run.run (state w) with
  | mk result s =>
    cases result with
    | ok a =>
      obtain ⟨w', up, rfl, hq⟩ := first.of_ok run
      have outcome := rest a w' up hq
      unfold After at outcome ⊢
      rw [run_bind_ok run]
      exact outcome.from up
    | error e => exact after_of_error (run_bind_error run) (first.of_error run)

/-- Changing the state first, as far as a known world. -/
theorem after_set_bind {s : σ} {next : PUnit → ExceptT ε (StateM σ) β} {w' : Ω} (up : w ≤ w')
    (hs : state w' = s) (rest : After state stop (next ⟨⟩) w' R) :
    After state stop (set s >>= next) w R := by
  subst hs
  unfold After at rest ⊢
  exact Outcome.from up rest

theorem after_modify_bind {f : σ → σ} {next : PUnit → ExceptT ε (StateM σ) β} {w' : Ω}
    (up : w ≤ w') (hs : state w' = f (state w)) (rest : After state stop (next ⟨⟩) w' R) :
    After state stop (modify f >>= next) w R := by
  have run : After state stop (set (f (state w)) >>= next) w R := after_set_bind up hs rest
  unfold After at run ⊢
  exact run

theorem after_map {act : ExceptT ε (StateM σ) α} {f : α → β}
    (h : After state stop act w (fun a w' => R (f a) w')) : After state stop (f <$> act) w R := by
  rw [map_eq_pure_bind]
  exact after_bind h (fun a w' _ ha => after_pure ha)

/-- A loop over a list: what each element's run gives stays true while the later ones run. -/
theorem after_mapM {Q : α → β → Ω → Prop} {f : α → ExceptT ε (StateM σ) β}
    (stays : ∀ x y w w', w ≤ w' → Q x y w → Q x y w') (xs : List α)
    (each : ∀ x ∈ xs, ∀ w', w ≤ w' → After state stop (f x) w' (Q x)) :
    After state stop (xs.mapM f) w
      (fun ys w' => List.Forall₂ (fun x y => Q x y w') xs ys) := by
  induction xs generalizing w with
  | nil => exact after_pure List.Forall₂.nil
  | cons x xs ih =>
    rw [List.mapM_cons]
    refine after_bind (each x List.mem_cons_self w le_rfl) (fun y w₁ up₁ hy => ?_)
    have others : After state stop (xs.mapM f) w₁
        (fun ys w' => List.Forall₂ (fun x y => Q x y w') xs ys) :=
      ih (fun x' hx' w' up => each x' (List.mem_cons_of_mem _ hx') w' (le_trans up₁ up))
    refine after_bind others (fun ys w₂ up₂ hys => ?_)
    exact after_pure (List.Forall₂.cons (stays x y w₁ w₂ up₂ hy) hys)

/-- A loop that carries a value: an invariant of the value and the world is kept. -/
theorem after_foldlM {I : β → Ω → Prop} {f : β → α → ExceptT ε (StateM σ) β}
    (xs : List α) (init : β) (start : I init w)
    (each : ∀ x ∈ xs, ∀ b w', w ≤ w' → I b w' → After state stop (f b x) w' I) :
    After state stop (xs.foldlM f init) w I := by
  induction xs generalizing w init with
  | nil => exact after_pure start
  | cons x xs ih =>
    rw [List.foldlM_cons]
    refine after_bind (each x List.mem_cons_self init w le_rfl start) (fun b w₁ up₁ hb => ?_)
    exact ih b hb
      (fun x' hx' b' w' up hb' => each x' (List.mem_cons_of_mem _ hx') b' w' (le_trans up₁ up) hb')

/-- A loop that carries a value: what holds of the elements so far is kept from one to the next. -/
theorem after_foldlM_done {I : List α → β → Ω → Prop} {f : β → α → ExceptT ε (StateM σ) β}
    (xs : List α) (init : β) (start : I [] init w)
    (each : ∀ done x rest, xs = done ++ x :: rest → ∀ b w', w ≤ w' → I done b w' →
      After state stop (f b x) w' (I (done ++ [x]))) :
    After state stop (xs.foldlM f init) w (I xs) := by
  have rest : ∀ (rest done : List α) (b : β) (w' : Ω), xs = done ++ rest → w ≤ w' → I done b w' →
      After state stop (rest.foldlM f b) w' (I xs) := by
    intro rest
    induction rest with
    | nil =>
      intro done b w' split up hb
      rw [List.append_nil] at split
      subst split
      exact after_pure hb
    | cons x rest ih =>
      intro done b w' split up hb
      rw [List.foldlM_cons]
      refine after_bind (each done x rest split b w' up hb) (fun b' w'' up' hb' => ?_)
      refine ih (done ++ [x]) b' w'' ?_ (le_trans up up') hb'
      rw [split, List.append_assoc]
      rfl
  exact rest xs [] init w rfl le_rfl start

end Bind

/-- A stop that is caught: what the handler makes of it counts from the world where the run
began. -/
theorem after_tryCatch {stop' : Ω → ε → σ → Prop} {act : ExceptT ε (StateM σ) α}
    {handle : ε → ExceptT ε (StateM σ) α} (body : After state stop' act w Q)
    (rescue : ∀ e s, stop' w e s → Outcome state stop w Q ((handle e).run.run s)) :
    After state stop (tryCatch act handle) w Q := by
  cases run : act.run.run (state w) with
  | mk result s =>
    cases result with
    | ok a =>
      obtain ⟨w', up, hs, hq⟩ := body.of_ok run
      exact after_of_ok (run_tryCatch_ok run) up hs hq
    | error e =>
      unfold After
      rw [run_tryCatch_error run]
      exact rescue e s (body.of_error run)

end Rules

end JsonSchema
