import Mathlib.Data.List.Basic

/-! Taking computations that may fail apart: what is known once they answered. -/

namespace Patchbay

universe u v w

variable {ε : Type u} {α : Type v} {β : Type v}

theorem ok_of_bind {x : Except ε α} {f : α → Except ε β} {b : β} (h : x >>= f = .ok b) :
    ∃ a, x = .ok a ∧ f a = .ok b := by
  cases x with
  | error e => cases h
  | ok a => exact ⟨a, rfl, h⟩

theorem bind_eq_ok {x : Except ε α} {f : α → Except ε β} {b : β} :
    x >>= f = .ok b ↔ ∃ a, x = .ok a ∧ f a = .ok b := by
  refine ⟨ok_of_bind, ?_⟩
  rintro ⟨a, rfl, hb⟩
  exact hb

theorem ok_of_mapError {ε' : Type w} {x : Except ε α} {f : ε → ε'} {a : α}
    (h : x.mapError f = .ok a) : x = .ok a := by
  cases x with
  | error e => cases h
  | ok b =>
    cases h
    rfl

theorem mapError_eq_ok {ε' : Type w} {x : Except ε α} {f : ε → ε'} {a : α} : x.mapError f = .ok a ↔ x = .ok a := by
  refine ⟨ok_of_mapError, ?_⟩
  rintro rfl
  rfl

theorem ok_of_map {x : Except ε α} {f : α → β} {b : β} (h : x.map f = .ok b) :
    ∃ a, x = .ok a ∧ f a = b := by
  cases x with
  | error e => cases h
  | ok a => exact ⟨a, rfl, Except.ok.inj h⟩

theorem toOption_eq_some {x : Except ε α} {a : α} : x.toOption = some a ↔ x = .ok a := by
  cases x with
  | error e => exact ⟨nofun, nofun⟩
  | ok b => exact ⟨fun h => congrArg Except.ok (Option.some.inj h), fun h => congrArg some (Except.ok.inj h)⟩

/-- What every step keeps, a fold that answered has kept. -/
theorem foldlM_keeps {γ : Type w} {f : β → γ → Except ε β} {P : β → Prop} {l : List γ}
    (step : ∀ s, ∀ x ∈ l, ∀ s', P s → f s x = .ok s' → P s') {s s' : β} (hs : P s)
    (h : l.foldlM f s = .ok s') : P s' := by
  induction l generalizing s with
  | nil =>
    cases h
    exact hs
  | cons x rest ih =>
    rw [List.foldlM_cons] at h
    obtain ⟨t, ht, hrest⟩ := ok_of_bind h
    exact ih (fun s y hy => step s y (List.mem_cons_of_mem x hy))
      (step s x List.mem_cons_self t hs ht) hrest

theorem ok_of_forM {γ : Type w} {f : γ → Except ε PUnit} {l : List γ} (h : l.forM f = .ok ⟨⟩) :
    ∀ x ∈ l, f x = .ok ⟨⟩ := by
  induction l with
  | nil => nofun
  | cons x rest ih =>
    obtain ⟨_, hx, hrest⟩ := ok_of_bind h
    intro y hy
    rcases List.mem_cons.1 hy with rfl | hy
    · exact hx
    · exact ih hrest y hy

theorem forM_eq_ok {γ : Type w} {f : γ → Except ε PUnit} {l : List γ} (h : ∀ x ∈ l, f x = .ok ⟨⟩) :
    l.forM f = .ok ⟨⟩ := by
  induction l with
  | nil => rfl
  | cons x rest ih =>
    rw [List.forM, h x List.mem_cons_self]
    exact ih fun y hy => h y (List.mem_cons_of_mem x hy)

/-- A fold that answered has done so for each element. -/
theorem ok_of_foldlM {γ : Type w} {f : β → γ → Except ε β} {l : List γ} {s s' : β}
    (h : l.foldlM f s = .ok s') : ∀ x ∈ l, ∃ t t', f t x = .ok t' := by
  induction l generalizing s with
  | nil => nofun
  | cons x rest ih =>
    rw [List.foldlM_cons] at h
    obtain ⟨t, hx, hrest⟩ := ok_of_bind h
    exact List.forall_mem_cons.2 ⟨⟨s, t, hx⟩, ih hrest⟩

theorem foldlM_eq_ok {γ : Type w} {f : β → γ → Except ε β} {l : List γ} (h : ∀ s, ∀ x ∈ l, ∃ s', f s x = .ok s')
    {s : β} : ∃ s', l.foldlM f s = .ok s' := by
  induction l generalizing s with
  | nil => exact ⟨s, rfl⟩
  | cons x rest ih =>
    obtain ⟨t, ht⟩ := h s x List.mem_cons_self
    obtain ⟨s', hs'⟩ := ih (fun s y hy => h s y (List.mem_cons_of_mem x hy)) (s := t)
    exact ⟨s', by rw [List.foldlM_cons, ht]; exact hs'⟩

/-- A list is mapped element by element, and no element is lost. -/
theorem mem_of_mapM {γ : Type w} {f : γ → Except ε β} {l : List γ} {l' : List β} (h : l.mapM f = .ok l') :
    (∀ y ∈ l', ∃ x ∈ l, f x = .ok y) ∧ ∀ x ∈ l, ∃ y ∈ l', f x = .ok y := by
  induction l generalizing l' with
  | nil =>
    cases h
    exact ⟨nofun, nofun⟩
  | cons x rest ih =>
    rw [List.mapM_cons] at h
    obtain ⟨y, hy, h⟩ := ok_of_bind h
    obtain ⟨ys, hys, h⟩ := ok_of_bind h
    cases h
    obtain ⟨hto, hof⟩ := ih hys
    constructor
    · intro z hz
      rcases List.mem_cons.1 hz with rfl | hz
      · exact ⟨x, List.mem_cons_self, hy⟩
      · obtain ⟨x', hx', he⟩ := hto z hz
        exact ⟨x', List.mem_cons_of_mem x hx', he⟩
    · intro x' hx'
      rcases List.mem_cons.1 hx' with rfl | hx'
      · exact ⟨y, List.mem_cons_self, hy⟩
      · obtain ⟨z, hz, he⟩ := hof x' hx'
        exact ⟨z, List.mem_cons_of_mem y hz, he⟩

theorem mapM_congr {γ : Type w} {f f' : γ → Except ε β} {l : List γ} (h : ∀ x ∈ l, f' x = f x) :
    l.mapM f' = l.mapM f := by
  induction l with
  | nil => rfl
  | cons x rest ih =>
    rw [List.mapM_cons, List.mapM_cons, h x List.mem_cons_self, ih fun y hy => h y (List.mem_cons_of_mem x hy)]

theorem mapM_eq_ok {γ : Type w} {f : γ → Except ε β} {l : List γ} (h : ∀ x ∈ l, ∃ y, f x = .ok y) :
    ∃ l', l.mapM f = .ok l' := by
  induction l with
  | nil => exact ⟨[], rfl⟩
  | cons x rest ih =>
    obtain ⟨y, hy⟩ := h x List.mem_cons_self
    obtain ⟨ys, hys⟩ := ih fun x' hx' => h x' (List.mem_cons_of_mem x hx')
    refine ⟨y :: ys, ?_⟩
    rw [List.mapM_cons]
    exact bind_eq_ok.2 ⟨y, hy, bind_eq_ok.2 ⟨ys, hys, rfl⟩⟩

theorem error_of_bind {x : Except ε α} {f : α → Except ε β} {e : ε} (h : x >>= f = .error e) :
    x = .error e ∨ ∃ a, x = .ok a ∧ f a = .error e := by
  cases x with
  | error e' =>
    cases h
    exact .inl rfl
  | ok a => exact .inr ⟨a, rfl, h⟩

theorem error_of_mapError {ε' : Type w} {x : Except ε α} {f : ε → ε'} {e' : ε'} (h : x.mapError f = .error e') :
    ∃ e, x = .error e ∧ f e = e' := by
  cases x with
  | error e => exact ⟨e, rfl, Except.error.inj h⟩
  | ok a => cases h

theorem error_of_map {x : Except ε α} {f : α → β} {e : ε} (h : x.map f = .error e) : x = .error e := by
  cases x with
  | error e' =>
    cases h
    rfl
  | ok a => cases h

theorem error_of_mapM {γ : Type w} {f : γ → Except ε β} {l : List γ} {e : ε} (h : l.mapM f = .error e) :
    ∃ x ∈ l, f x = .error e := by
  induction l with
  | nil => cases h
  | cons x rest ih =>
    rw [List.mapM_cons] at h
    rcases error_of_bind h with hx | ⟨y, -, h⟩
    · exact ⟨x, List.mem_cons_self, hx⟩
    · rcases error_of_bind h with hrest | ⟨ys, -, h⟩
      · obtain ⟨x', hx', he⟩ := ih hrest
        exact ⟨x', List.mem_cons_of_mem x hx', he⟩
      · cases h

/-- What every step keeps, a fold has kept. -/
theorem foldl_keeps {γ : Type w} {f : β → γ → β} {P : β → Prop} {l : List γ}
    (step : ∀ s, ∀ x ∈ l, P s → P (f s x)) {s : β} (hs : P s) : P (l.foldl f s) := by
  induction l generalizing s with
  | nil => exact hs
  | cons x rest ih =>
    exact ih (fun s y hy => step s y (List.mem_cons_of_mem x hy)) (step s x List.mem_cons_self hs)

/-- A fold comes to the same in any order, if two steps do from all that it passes through. -/
theorem foldl_perm {γ : Type w} {f : β → γ → β} {P : β → Prop} {l l' : List γ} (hp : l.Perm l')
    (step : ∀ s, ∀ x ∈ l, P s → P (f s x)) (swap : ∀ s, ∀ x ∈ l, ∀ y ∈ l, P s → f (f s x) y = f (f s y) x) {s : β}
    (hs : P s) : l.foldl f s = l'.foldl f s := by
  induction hp generalizing s with
  | nil => rfl
  | cons x _ ih =>
    exact ih (fun s y hy => step s y (List.mem_cons_of_mem x hy))
      (fun s y hy z hz => swap s y (List.mem_cons_of_mem x hy) z (List.mem_cons_of_mem x hz))
      (step s x List.mem_cons_self hs)
  | swap x y l =>
    rw [List.foldl_cons, List.foldl_cons, List.foldl_cons, List.foldl_cons,
      swap s y List.mem_cons_self x (List.mem_cons_of_mem y List.mem_cons_self) hs]
  | trans h _ ih ih' =>
    refine (ih step swap hs).trans (ih' (fun s x hx => step s x (h.mem_iff.2 hx)) ?_ hs)
    exact fun s x hx y hy => swap s x (h.mem_iff.2 hx) y (h.mem_iff.2 hy)

end Patchbay
