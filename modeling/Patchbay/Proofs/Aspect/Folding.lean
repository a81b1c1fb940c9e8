import Patchbay.Proofs.Aspect.Composition

/-! The fold of instances told step by step: which of them it takes, which it drops, and what it comes to. An instance
that is dropped leaves the parameters as they were, so that those that are taken would by themselves be taken again. -/

namespace Patchbay

/-- Composing told apart by positions: each instance went into the parameters or was dropped, and those that went into
them come to the same by themselves. Without a lattice the newest of them is all there is. -/
structure Composition.Sorts (c : Composition) (m : Manifest) (instances : List AspectInstance) : Prop where
  contributors_ascend : c.contributors.Pairwise (· < ·)
  dropped_ascend : (c.dropped.map (·.1)).Pairwise (· < ·)
  partition : (c.contributors ++ c.dropped.map (·.1)).Perm (List.range instances.length)
  again : m.compose? (c.contributors.filterMap fun i => instances[i]?) =
    some { params := c.params, contributors := List.range c.contributors.length }
  newest : m.compose = none →
    ∃ i a, c.contributors.getLast? = some i ∧ instances[i]? = some a ∧ c.params = a.params

namespace Manifest

variable {m : Manifest} {p q : Json} {instances : List AspectInstance} {l taken : List (AspectInstance × Nat)}
  {dropped : List (Nat × DropReason)} {c : Composition}

/-- From the parameters `p` on, the fold goes over instances with their positions, takes some and drops the others, each
for a reason, and comes to `q`. -/
inductive Sifts (m : Manifest) : Json → List (AspectInstance × Nat) → List (AspectInstance × Nat) →
    List (Nat × DropReason) → Json → Prop
  | done {p : Json} : m.Sifts p [] [] [] p
  | take {p joined q : Json} {x : AspectInstance × Nat} {rest taken : List (AspectInstance × Nat)}
      {dropped : List (Nat × DropReason)} (hx : m.admitInstance p x.1.params = .ok joined)
      (hrest : m.Sifts joined rest taken dropped q) : m.Sifts p (x :: rest) (x :: taken) dropped q
  | drop {p q : Json} {x : AspectInstance × Nat} {rest taken : List (AspectInstance × Nat)}
      {dropped : List (Nat × DropReason)} {reason : DropReason} (hx : m.admitInstance p x.1.params = .error reason)
      (hrest : m.Sifts p rest taken dropped q) : m.Sifts p (x :: rest) taken ((x.2, reason) :: dropped) q

theorem exists_sifts (m : Manifest) (p : Json) (l : List (AspectInstance × Nat)) :
    ∃ taken dropped q, m.Sifts p l taken dropped q := by
  induction l generalizing p with
  | nil => exact ⟨[], [], p, .done⟩
  | cons x rest ih =>
    cases hx : m.admitInstance p x.1.params with
    | ok joined =>
      obtain ⟨taken, dropped, q, hrest⟩ := ih joined
      exact ⟨_, _, _, .take hx hrest⟩
    | error reason =>
      obtain ⟨taken, dropped, q, hrest⟩ := ih p
      exact ⟨_, _, _, .drop hx hrest⟩

namespace Sifts

theorem foldl_composeStep (h : m.Sifts p l taken dropped q) (ks : List Nat) (ds : List (Nat × DropReason)) :
    l.foldl m.composeStep ⟨p, ks, ds⟩ = ⟨q, ks ++ taken.map (·.2), ds ++ dropped⟩ := by
  induction h generalizing ks ds with
  | done => simp
  | take hx hrest ih =>
    rw [List.foldl_cons, composeStep_of_ok hx, ih]
    simp
  | drop hx hrest ih =>
    rw [List.foldl_cons, composeStep_of_error hx, ih]
    simp

theorem compose?_eq (h : m.Sifts .null instances.zipIdx taken dropped q) :
    m.compose? instances = if taken = [] then none else some ⟨q, taken.map (·.2), dropped⟩ := by
  unfold Manifest.compose?
  rw [h.foldl_composeStep [] []]
  simp

theorem taken_sublist (h : m.Sifts p l taken dropped q) : taken.Sublist l := by
  induction h with
  | done => exact .slnil
  | take hx hrest ih => exact ih.cons_cons _
  | drop hx hrest ih => exact ih.cons _

theorem dropped_sublist (h : m.Sifts p l taken dropped q) : (dropped.map (·.1)).Sublist (l.map (·.2)) := by
  induction h with
  | done => exact .slnil
  | take hx hrest ih => exact ih.cons _
  | drop hx hrest ih => exact ih.cons_cons _

theorem perm (h : m.Sifts p l taken dropped q) : (taken.map (·.2) ++ dropped.map (·.1)).Perm (l.map (·.2)) := by
  induction h with
  | done => exact .refl _
  | take hx hrest ih => exact ih.cons _
  | drop hx hrest ih => exact List.perm_middle.trans (ih.cons _)

theorem validate_of_mem (h : m.Sifts p l taken dropped q) : ∀ x ∈ taken, m.validate x.1.params = .ok () := by
  induction h with
  | done => nofun
  | take hx hrest ih => exact List.forall_mem_cons.2 ⟨(admitInstance_eq_ok.1 hx).1, ih⟩
  | drop hx hrest ih => exact ih

/-- Where the schema alone decides, whatever the fold has come to, it takes all that the schema admits. -/
theorem mem_taken {P : Json → Prop} (h : m.Sifts p l taken dropped q)
    (hstep : ∀ p, P p → ∀ x ∈ l, m.validate x.1.params = .ok () →
      ∃ joined, m.admitInstance p x.1.params = .ok joined ∧ P joined)
    (hp : P p) : ∀ x ∈ l, m.validate x.1.params = .ok () → x ∈ taken := by
  induction h with
  | done => nofun
  | @take p joined q y rest taken dropped hy hrest ih =>
    have hjoined : P joined := by
      obtain ⟨joined', hadmit, hjoined⟩ := hstep p hp y List.mem_cons_self (admitInstance_eq_ok.1 hy).1
      cases hy.symm.trans hadmit
      exact hjoined
    intro x hx hvalid
    rcases List.mem_cons.1 hx with rfl | hx
    · exact List.mem_cons_self
    · exact List.mem_cons_of_mem _ (ih (fun p hp x hx => hstep p hp x (List.mem_cons_of_mem _ hx)) hjoined x hx hvalid)
  | @drop p q y rest taken dropped reason hy hrest ih =>
    intro x hx hvalid
    rcases List.mem_cons.1 hx with rfl | hx
    · obtain ⟨joined, hadmit, -⟩ := hstep p hp x List.mem_cons_self hvalid
      cases hy.symm.trans hadmit
    · exact ih (fun p hp x hx => hstep p hp x (List.mem_cons_of_mem _ hx)) hp x hx hvalid

/-- The instances that are taken are taken by themselves, wherever they then stand. -/
theorem again (h : m.Sifts p l taken dropped q) (n : Nat) :
    m.Sifts p ((taken.map (·.1)).zipIdx n) ((taken.map (·.1)).zipIdx n) [] q := by
  induction h generalizing n with
  | done => exact .done
  | take hx hrest ih => exact .take hx (ih (n + 1))
  | drop hx hrest ih => exact ih n

/-- Without a lattice the parameters are those of the newest instance that is taken. -/
theorem newest (h : m.Sifts p l taken dropped q) (hm : m.compose = none) :
    q = (taken.getLast?.map (·.1.params)).getD p := by
  induction h with
  | done => rfl
  | @take p joined q x rest taken dropped hx hrest ih =>
    have hjoined : x.1.params = joined := by
      have hmerge := (admitInstance_eq_ok.1 hx).2
      rw [merge, hm] at hmerge
      exact Except.ok.inj hmerge
    rw [ih, List.getLast?_cons, ← hjoined]
    cases taken.getLast? <;> rfl
  | drop hx hrest ih => exact ih

end Sifts

theorem sifts_of_compose? (h : m.compose? instances = some c) :
    ∃ taken, m.Sifts .null instances.zipIdx taken c.dropped c.params ∧ c.contributors = taken.map (·.2) ∧ taken ≠ [] := by
  obtain ⟨taken, dropped, q, hsifts⟩ := m.exists_sifts .null instances.zipIdx
  rw [hsifts.compose?_eq] at h
  split at h
  · cases h
  next hne =>
  cases h
  exact ⟨taken, hsifts, rfl, hne⟩

/-- Positions of instances lead back to the instances. -/
theorem filterMap_positions (h : taken.Sublist instances.zipIdx) :
    (taken.map (·.2)).filterMap (fun i => instances[i]?) = taken.map (·.1) := by
  have hat : ∀ x ∈ taken, instances[x.2]? = some x.1 := fun x hx => List.mem_zipIdx_iff_getElem?.1 (h.mem hx)
  rw [List.filterMap_map, ← List.filterMap_eq_map]
  exact List.filterMap_congr hat

theorem sorts_of_compose? (h : m.compose? instances = some c) : c.Sorts m instances := by
  obtain ⟨taken, hsifts, hcontributors, hne⟩ := sifts_of_compose? h
  have hpositions : instances.zipIdx.map (·.2) = List.range instances.length := by
    rw [List.zipIdx_map_snd, List.range_eq_range']
  have hascend : (instances.zipIdx.map (·.2)).Pairwise (· < ·) := by
    rw [hpositions]
    exact List.pairwise_lt_range
  refine ⟨?_, hascend.sublist hsifts.dropped_sublist, ?_, ?_, fun hm => ?_⟩
  · rw [hcontributors]
    exact hascend.sublist (hsifts.taken_sublist.map _)
  · rw [hcontributors, ← hpositions]
    exact hsifts.perm
  · rw [hcontributors, filterMap_positions hsifts.taken_sublist, (hsifts.again 0).compose?_eq, if_neg (by simpa using hne),
      List.zipIdx_map_snd, List.range_eq_range']
    simp
  · obtain ⟨x, hx⟩ := Option.isSome_iff_exists.1 (List.getLast?_isSome.2 hne)
    refine ⟨x.2, x.1, ?_, ?_, ?_⟩
    · rw [hcontributors, List.getLast?_map, hx, Option.map_some]
    · exact List.mem_zipIdx_iff_getElem?.1 (hsifts.taken_sublist.mem (List.mem_of_getLast? hx))
    · rw [hsifts.newest hm, hx]
      rfl

end Manifest

end Patchbay
