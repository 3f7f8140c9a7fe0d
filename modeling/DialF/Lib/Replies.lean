import Mathlib.Order.Defs.PartialOrder

/-!
# What a component replies

A component takes a request in a state, and has an answer and a next state. `replies` are its
answers to a list of requests, `after` is the state behind them. Two components cannot be told apart
where a relation between their states is kept, and related states have the same answer; where the
requests come at times that do not go back, the relation may be one that holds from a time on
(`Agree.replies_eq`).
-/

set_option autoImplicit false

namespace DialF.Lib

universe u v w x y

/-- From a state and a request to an answer and the next state. -/
abbrev Component (σ : Type u) (α : Type v) (β : Type w) := σ → α → β × σ

section Component

variable {σ : Type u} {α : Type v} {β : Type w} {τ : Type x}

/-- The answers to a list of requests. -/
def replies (f : Component σ α β) : σ → List α → List β
  | _, [] => []
  | s, a :: as => (f s a).1 :: replies f (f s a).2 as

/-- The state behind a list of requests. -/
def after (f : Component σ α β) : σ → List α → σ
  | s, [] => s
  | s, a :: as => after f (f s a).2 as

theorem replies_append (f : Component σ α β) (s : σ) (as more : List α) :
    replies f s (as ++ more) = replies f s as ++ replies f (after f s as) more := by
  induction as generalizing s with
  | nil => rfl
  | cons a as ih => rw [List.cons_append, replies, replies, after, ih, List.cons_append]

/-- A relation between the states of two components that holds from a time on. -/
structure Agree {T : Type y} [Preorder T] (time : α → T) (R : T → σ → τ → Prop)
    (f : Component σ α β) (g : Component τ α β) : Prop where
  later : ∀ {t t' s s'}, t ≤ t' → R t s s' → R t' s s'
  answer : ∀ {s s'} (a), R (time a) s s' → (f s a).1 = (g s' a).1
  next : ∀ {s s'} (a), R (time a) s s' → R (time a) (f s a).2 (g s' a).2

variable {T : Type y} [Preorder T] {time : α → T} {R : T → σ → τ → Prop} {f : Component σ α β}
  {g : Component τ α β}

/-- Requests that have been taken keep the relation, from the last of the times on. -/
theorem Agree.after (h : Agree time R f g) {as : List α}
    (hclock : as.Pairwise fun a b => time a ≤ time b) {s : σ} {s' : τ}
    (hR : ∀ a ∈ as, R (time a) s s') {last : T} (hlast : ∀ a ∈ as, time a ≤ last)
    (hend : R last s s') : R last (after f s as) (after g s' as) := by
  induction as generalizing s s' with
  | nil => exact hend
  | cons a as ih =>
      obtain ⟨hfirst, hrest⟩ := List.pairwise_cons.1 hclock
      have hnext := h.next a (hR a List.mem_cons_self)
      have hend' := h.later (hlast a List.mem_cons_self) hnext
      exact ih hrest (fun b hb => h.later (hfirst b hb) hnext)
        (fun b hb => hlast b (List.mem_cons_of_mem a hb)) hend'

/-- **The rule of simulation.** Components that agree give the same answers, as long as the times do
not go back. -/
theorem Agree.replies_eq (h : Agree time R f g) {as : List α}
    (hclock : as.Pairwise fun a b => time a ≤ time b) {s : σ} {s' : τ}
    (hR : ∀ a ∈ as, R (time a) s s') : replies f s as = replies g s' as := by
  induction as generalizing s s' with
  | nil => rfl
  | cons a as ih =>
      obtain ⟨hfirst, hrest⟩ := List.pairwise_cons.1 hclock
      have hnow : R (time a) s s' := hR a List.mem_cons_self
      rw [replies, replies, h.answer a hnow,
        ih hrest fun b hb => h.later (hfirst b hb) (h.next a hnow)]

end Component

end DialF.Lib
