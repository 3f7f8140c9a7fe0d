import Mathlib.Data.List.Nodup
import Mathlib.Data.List.Perm.Basic
import Mathlib.Logic.Relation

/-!
# Exploring

Places are explored from one of them, depth first: a place has items, some of which are places to
go on to and the others what is looked for. A place has a key, and is entered only if its key has
not been seen, so that the exploration comes to an end where the keys do (`explore`).

Two places with one key are one place on two ways, and only the first way is gone. What an
exploration finds is, in some order, what the places have that were entered; the keys of these are
distinct, and all that can be gone on to from one of them has been seen (`covers_explore`).
-/

set_option autoImplicit false

namespace DialF.Lib

universe u v w

variable {β : Type u} {γ : Type v} {α : Type w}

/-- What has been found so far, and the keys that have been seen. -/
structure Explored (γ : Type v) (α : Type w) where
  out : List γ
  seen : List α

/-- One item: a place is visited, and anything else has been found. -/
def takeItem (visit : β → Explored γ α → Explored γ α) (s : Explored γ α) :
    β ⊕ γ → Explored γ α
  | .inl b => visit b s
  | .inr c => { s with out := s.out ++ [c] }

/-- Visit a place, so many levels deep at most. -/
def explore [DecidableEq α] (key : β → α) (items : β → List (β ⊕ γ)) :
    Nat → β → Explored γ α → Explored γ α
  | 0, _, s => s
  | fuel + 1, b, s =>
      if key b ∈ s.seen then s
      else
        (items b).foldl (takeItem (explore key items fuel)) { s with seen := key b :: s.seen }

/-- What is found among items. -/
def finds (items : List (β ⊕ γ)) : List γ := items.filterMap Sum.getRight?

@[simp] theorem finds_nil : finds ([] : List (β ⊕ γ)) = [] := rfl

@[simp] theorem finds_inl (b : β) : finds [(.inl b : β ⊕ γ)] = [] := rfl

@[simp] theorem finds_inr (c : γ) : finds [(.inr c : β ⊕ γ)] = [c] := rfl

@[simp] theorem finds_append (l l' : List (β ⊕ γ)) : finds (l ++ l') = finds l ++ finds l' :=
  List.filterMap_append

theorem mem_finds {l : List (β ⊕ γ)} {c : γ} : c ∈ finds l ↔ .inr c ∈ l := by
  rw [finds, List.mem_filterMap]
  constructor
  · rintro ⟨item, hitem, hc⟩
    cases item with
    | inl b => simp at hc
    | inr d =>
        obtain rfl : d = c := by simpa using hc
        exact hitem
  · intro h
    exact ⟨.inr c, h, rfl⟩

/-- What exploring the items `todo` does, entering the places `entered`. -/
structure Covers (key : β → α) (items : β → List (β ⊕ γ)) (todo : List (β ⊕ γ))
    (s s' : Explored γ α) (entered : List β) : Prop where
  seen : ∀ k, k ∈ s'.seen ↔ k ∈ s.seen ∨ k ∈ entered.map key
  nodup : (entered.map key).Nodup
  fresh : ∀ k ∈ entered.map key, k ∉ s.seen
  out : s'.out.Perm (s.out ++ finds todo ++ entered.flatMap fun b => finds (items b))
  done : ∀ b, .inl b ∈ todo → key b ∈ s'.seen
  closed : ∀ b ∈ entered, ∀ b', .inl b' ∈ items b → key b' ∈ s'.seen
  reached : ∀ b ∈ entered, ∃ a, .inl a ∈ todo ∧
    Relation.ReflTransGen (fun x y => .inl y ∈ items x) a b

section Covers

variable {key : β → α} {items : β → List (β ⊕ γ)} {todo todo' : List (β ⊕ γ)}
  {s s' s'' : Explored γ α} {entered entered' : List β}

theorem Covers.nil (s : Explored γ α) : Covers key items [] s s [] where
  seen k := by simp
  nodup := List.nodup_nil
  fresh := by simp
  out := by simp
  done := by simp
  closed := by simp
  reached := by simp

theorem Covers.found (s : Explored γ α) (c : γ) :
    Covers key items [.inr c] s { s with out := s.out ++ [c] } [] where
  seen k := by simp
  nodup := List.nodup_nil
  fresh := by simp
  out := by simp
  done := by simp
  closed := by simp
  reached := by simp

/-- A place whose key has been seen. -/
theorem Covers.known {b : β} (h : key b ∈ s.seen) : Covers key items [.inl b] s s [] where
  seen k := by simp
  nodup := List.nodup_nil
  fresh := by simp
  out := by simp
  done b' hb' := by
    obtain rfl := Sum.inl.inj (List.mem_singleton.1 hb')
    exact h
  closed := by simp
  reached := by simp

/-- One after the other. -/
theorem Covers.append (h : Covers key items todo s s' entered)
    (h' : Covers key items todo' s' s'' entered') :
    Covers key items (todo ++ todo') s s'' (entered ++ entered') where
  seen k := by
    rw [h'.seen, h.seen, List.map_append, List.mem_append, or_assoc]
  nodup := by
    rw [List.map_append, List.nodup_append]
    refine ⟨h.nodup, h'.nodup, ?_⟩
    rintro k hk k' hk' rfl
    exact h'.fresh k hk' ((h.seen k).2 (Or.inr hk))
  fresh := by
    intro k hk hs
    rw [List.map_append, List.mem_append] at hk
    rcases hk with hk | hk
    · exact h.fresh k hk hs
    · exact h'.fresh k hk ((h.seen k).2 (Or.inl hs))
  out := by
    rw [finds_append, List.flatMap_append]
    -- the second part comes behind what the first has found
    have hout := h'.out.trans ((h.out.append_right _).append_right _)
    refine hout.trans ?_
    simp only [List.append_assoc]
    apply List.Perm.append_left
    apply List.Perm.append_left
    rw [← List.append_assoc, ← List.append_assoc]
    exact List.perm_append_comm.append_right _
  done := by
    intro b hb
    rcases List.mem_append.1 hb with hb | hb
    · exact (h'.seen _).2 (Or.inl (h.done b hb))
    · exact h'.done b hb
  closed := by
    intro b hb b' hb'
    rcases List.mem_append.1 hb with hb | hb
    · exact (h'.seen _).2 (Or.inl (h.closed b hb b' hb'))
    · exact h'.closed b hb b' hb'
  reached := by
    intro b hb
    rcases List.mem_append.1 hb with hb | hb
    · obtain ⟨a, ha, hreach⟩ := h.reached b hb
      exact ⟨a, List.mem_append_left _ ha, hreach⟩
    · obtain ⟨a, ha, hreach⟩ := h'.reached b hb
      exact ⟨a, List.mem_append_right _ ha, hreach⟩

/-- A place is entered, and its items are explored. -/
theorem Covers.enter {b : β} (hb : key b ∉ s.seen)
    (h : Covers key items (items b) { s with seen := key b :: s.seen } s' entered) :
    Covers key items [.inl b] s s' (b :: entered) where
  seen k := by
    rw [h.seen, List.mem_cons, List.map_cons, List.mem_cons]
    tauto
  nodup := by
    rw [List.map_cons, List.nodup_cons]
    exact ⟨fun hk => h.fresh _ hk List.mem_cons_self, h.nodup⟩
  fresh := by
    intro k hk hs
    rcases List.mem_cons.1 hk with rfl | hk
    · exact hb hs
    · exact h.fresh k hk (List.mem_cons_of_mem _ hs)
  out := by
    refine h.out.trans ?_
    simp
  done := by
    intro b' hb'
    obtain rfl := Sum.inl.inj (List.mem_singleton.1 hb')
    exact (h.seen _).2 (Or.inl List.mem_cons_self)
  closed := by
    intro b' hb' c hc
    rcases List.mem_cons.1 hb' with rfl | hb'
    · exact h.done c hc
    · exact h.closed b' hb' c hc
  reached := by
    intro b' hb'
    refine ⟨b, List.mem_singleton_self _, ?_⟩
    rcases List.mem_cons.1 hb' with rfl | hb'
    · exact Relation.ReflTransGen.refl
    · obtain ⟨a, ha, hreach⟩ := h.reached b' hb'
      exact Relation.ReflTransGen.head ha hreach

end Covers

/-! ## Enough levels -/

section Explore

variable [DecidableEq α] {key : β → α} {items : β → List (β ⊕ γ)} {keys : List α}

/-- How many keys there are that have not been seen. -/
def unseen (keys seen : List α) : Nat := keys.countP fun k => k ∉ seen

theorem unseen_anti {seen seen' : List α} (h : ∀ k ∈ seen, k ∈ seen') :
    unseen keys seen' ≤ unseen keys seen := by
  apply List.countP_mono_left
  intro k _ hk
  exact decide_eq_true fun hseen => of_decide_eq_true hk (h k hseen)

theorem unseen_cons_lt {seen : List α} {k : α} (hk : k ∈ keys) (hnew : k ∉ seen) :
    unseen keys (k :: seen) < unseen keys seen := by
  induction keys with
  | nil => exact absurd hk List.not_mem_nil
  | cons k' keys ih =>
      have hle : unseen keys (k :: seen) ≤ unseen keys seen :=
        unseen_anti fun _ h => List.mem_cons_of_mem k h
      simp only [unseen, List.countP_cons] at hle ih ⊢
      by_cases heq : k' = k
      · subst heq
        simp only [List.mem_cons, true_or, not_true_eq_false, decide_false, Bool.false_eq_true,
          if_false, hnew, not_false_eq_true, decide_true, if_true]
        simp only [List.mem_cons] at hle
        omega
      · have hlt := ih ((List.mem_cons.1 hk).resolve_left (Ne.symm heq))
        simp only [List.mem_cons, heq, false_or] at hlt ⊢
        omega

/-- The items of a place, with enough levels left for each of them. -/
theorem covers_foldl {fuel : Nat}
    (hvisit : ∀ b (s : Explored γ α), unseen keys s.seen ≤ fuel →
      ∃ entered, Covers key items [.inl b] s (explore key items fuel b s) entered)
    (todo : List (β ⊕ γ)) (s : Explored γ α) (hs : unseen keys s.seen ≤ fuel) :
    ∃ entered, Covers key items todo s
      (todo.foldl (takeItem (explore key items fuel)) s) entered := by
  induction todo generalizing s with
  | nil => exact ⟨[], Covers.nil s⟩
  | cons item todo ih =>
      obtain ⟨entered, hitem⟩ : ∃ entered, Covers key items [item] s
          (takeItem (explore key items fuel) s item) entered := by
        cases item with
        | inl b => exact hvisit b s hs
        | inr c => exact ⟨[], Covers.found s c⟩
      obtain ⟨entered', hrest⟩ := ih (takeItem (explore key items fuel) s item)
        (Nat.le_trans (unseen_anti fun k hk => (hitem.seen k).2 (Or.inl hk)) hs)
      exact ⟨entered ++ entered', hitem.append hrest⟩

/-- **What an exploration does**, with as many levels as there are keys that have not been seen. -/
theorem covers_explore (hkeys : ∀ b, key b ∈ keys) (fuel : Nat) (b : β) (s : Explored γ α)
    (hs : unseen keys s.seen ≤ fuel) :
    ∃ entered, Covers key items [.inl b] s (explore key items fuel b s) entered := by
  induction fuel generalizing b s with
  | zero =>
      refine ⟨[], Covers.known ?_⟩
      by_contra hnew
      have hlt := unseen_cons_lt (hkeys b) hnew
      omega
  | succ fuel ih =>
      rw [explore]
      split
      · rename_i hknown
        exact ⟨[], Covers.known hknown⟩
      · rename_i hnew
        have hlt := unseen_cons_lt (hkeys b) hnew
        obtain ⟨entered, h⟩ := covers_foldl ih (items b) { s with seen := key b :: s.seen }
          (by show unseen keys (key b :: s.seen) ≤ fuel; omega)
        exact ⟨b :: entered, Covers.enter hnew h⟩

/-- The place that an exploration starts at is entered itself. -/
theorem covers_explore_new (items : β → List (β ⊕ γ)) (hkeys : ∀ b, key b ∈ keys) {fuel : Nat}
    {b : β} {s : Explored γ α} (hnew : key b ∉ s.seen) (hs : unseen keys s.seen ≤ fuel) :
    ∃ entered, Covers key items [.inl b] s (explore key items fuel b s) (b :: entered) := by
  have hlt := unseen_cons_lt (hkeys b) hnew
  cases fuel with
  | zero => omega
  | succ fuel =>
      obtain ⟨entered, h⟩ := covers_foldl (covers_explore hkeys fuel) (items b)
        { s with seen := key b :: s.seen } (by show unseen keys (key b :: s.seen) ≤ fuel; omega)
      rw [explore, if_neg hnew]
      exact ⟨entered, Covers.enter hnew h⟩

end Explore

end DialF.Lib
