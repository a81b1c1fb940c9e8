import Patchbay.Aspect.Composition
import Patchbay.Proofs.Lattice.Exact

/-! What comes of several instances of one aspect. Which of them are dropped may depend on their order, and how what is
left is written. Neither does where each instance is looked at before it is joined, and nothing that is the same in
several of them is written differently. -/

namespace Patchbay

namespace Manifest

variable {m : Manifest}

/-! ## Who contributes -/

theorem composeStep_of_ok {c : Composition} {x : AspectInstance × Nat} {params : Json}
    (h : m.admitInstance c.params x.1.params = .ok params) :
    m.composeStep c x = { c with params, contributors := c.contributors ++ [x.2] } := by
  rw [composeStep, h]

theorem composeStep_of_error {c : Composition} {x : AspectInstance × Nat} {reason : DropReason}
    (h : m.admitInstance c.params x.1.params = .error reason) :
    m.composeStep c x = { c with dropped := c.dropped ++ [(x.2, reason)] } := by
  rw [composeStep, h]

/-- While none has contributed the parameters are null, so that the next is admitted or dropped as if it came first. -/
theorem contributors_foldl_composeStep {l : List (AspectInstance × Nat)} {c : Composition}
    (hc : c.contributors = [] → c.params = .null) :
    (l.foldl m.composeStep c).contributors = [] ↔
      c.contributors = [] ∧ ∀ x ∈ l, ∀ params, m.admitInstance .null x.1.params ≠ .ok params := by
  induction l generalizing c with
  | nil => simp
  | cons x rest ih =>
    rw [List.foldl_cons, List.forall_mem_cons]
    cases hx : m.admitInstance c.params x.1.params with
    | ok params =>
      rw [composeStep_of_ok hx, ih (by simp)]
      constructor
      · intro h
        simp at h
      · rintro ⟨hnone, hno, -⟩
        exact absurd (hc hnone ▸ hx) (hno params)
    | error reason =>
      rw [composeStep_of_error hx, ih (by simpa using hc)]
      refine and_congr_right fun hnone => (and_iff_right fun params he => ?_).symm
      rw [← hc hnone, hx] at he
      cases he

theorem mem_contributors_foldl_composeStep {l : List (AspectInstance × Nat)} {c : Composition} {i : Nat}
    (h : i ∈ (l.foldl m.composeStep c).contributors) : i ∈ c.contributors ∨ ∃ x ∈ l, x.2 = i := by
  induction l generalizing c with
  | nil => exact .inl h
  | cons x rest ih =>
    rcases ih h with hc | ⟨y, hy, rfl⟩
    · unfold composeStep at hc
      split at hc
      · rcases List.mem_append.1 hc with hc | hi
        · exact .inl hc
        · exact .inr ⟨x, List.mem_cons_self, (List.mem_singleton.1 hi).symm⟩
      · exact .inl hc
    · exact .inr ⟨y, List.mem_cons_of_mem x hy, rfl⟩

theorem exists_compose? {instances : List AspectInstance} : (∃ c, m.compose? instances = some c) ↔
    ∃ a ∈ instances, ∃ params, m.admitInstance .null a.params = .ok params := by
  have hnone := contributors_foldl_composeStep (m := m) (l := instances.zipIdx) (c := {}) fun _ => rfl
  have hsome : (∃ c, m.compose? instances = some c) ↔ (instances.zipIdx.foldl m.composeStep {}).contributors ≠ [] := by
    simp [compose?]
  rw [hsome, ne_eq, hnone, and_iff_right rfl]
  simp only [not_forall, not_not, exists_prop]
  constructor
  · rintro ⟨x, hx, params, hadmit⟩
    exact ⟨x.1, List.mem_of_getElem? (List.mem_zipIdx_iff_getElem?.1 hx), params, hadmit⟩
  · rintro ⟨a, ha, params, hadmit⟩
    obtain ⟨i, hi⟩ := List.mem_iff_getElem?.1 ha
    exact ⟨(a, i), List.mem_zipIdx_iff_getElem?.2 hi, params, hadmit⟩

/-- Those that contribute are among the instances, and there is one. -/
theorem contributors_of_compose? {instances : List AspectInstance} {c : Composition}
    (h : m.compose? instances = some c) :
    c.contributors ≠ [] ∧ ∀ i ∈ c.contributors, i < instances.length := by
  simp only [compose?] at h
  split at h
  · cases h
  next hne =>
  cases h
  refine ⟨fun he => hne (List.isEmpty_iff.2 he), fun i hi => ?_⟩
  obtain ⟨x, hx, rfl⟩ := (mem_contributors_foldl_composeStep hi).resolve_left nofun
  exact (List.getElem?_eq_some_iff.1 (List.mem_zipIdx_iff_getElem?.1 hx)).1

/-! ## One instance -/

variable {s : LatticeSpec} {written : Json → Prop} {params incoming joined v x : Json}

/-- The parameters with one more instance, as they were if it is dropped. -/
def absorb (m : Manifest) (params incoming : Json) : Json :=
  match m.admitInstance params incoming with
  | .ok joined => joined
  | .error _ => params

theorem admitInstance_eq_ok : m.admitInstance params incoming = .ok joined ↔
    m.validate incoming = .ok () ∧ m.merge params incoming = .ok joined := by
  unfold admitInstance
  rw [bind_eq_ok]
  constructor
  · rintro ⟨_, hv, hj⟩
    exact ⟨ok_of_mapError hv, ok_of_mapError hj⟩
  · rintro ⟨hv, hj⟩
    exact ⟨(), mapError_eq_ok.2 hv, mapError_eq_ok.2 hj⟩

theorem absorb_of_ok (h : m.admitInstance params incoming = .ok joined) : m.absorb params incoming = joined := by
  rw [absorb, h]

theorem absorb_of_dropped (h : ∀ joined, m.admitInstance params incoming ≠ .ok joined) :
    m.absorb params incoming = params := by
  unfold absorb
  split
  · next joined hj => exact absurd hj (h joined)
  · rfl

/-- The schema refuses the parameters, or no join takes a part of them unread for what it is not. -/
def Reads (m : Manifest) (s : LatticeSpec) (params : Json) : Prop :=
  (∃ e, m.validate params = .error e) ∨ params.Valid ∧ ∀ x, s.Carrier x → s.SafeAt x params

/-- An instance that is read is dropped wherever it stands, or joined wherever it stands. -/
theorem Reads.absorb_cases (h : m.Reads s v) (hs : s.Plain) (hm : m.compose = some s.toLattice) :
    (∀ x, s.Carrier x → m.absorb x v = x) ∨
      m.validate v = .ok () ∧ s.Carrier v ∧ ∀ x, s.Carrier x → s.toLattice.join x v = .ok (m.absorb x v) := by
  have hmerge (x : Json) : m.merge x v = s.toLattice.join x v := by rw [merge, hm]
  cases hvalid : m.validate v with
  | error e =>
    refine .inl fun x _ => absorb_of_dropped fun joined hj => ?_
    cases hvalid.symm.trans (admitInstance_eq_ok.1 hj).1
  | ok _ =>
    obtain ⟨e, he⟩ | ⟨hv, hsafe⟩ := h
    · cases hvalid.symm.trans he
    by_cases hc : s.Carrier v
    · refine .inr ⟨rfl, hc, fun x hx => ?_⟩
      obtain ⟨joined, hj, -⟩ := hs.commutative.total hx hc
      rw [absorb_of_ok (admitInstance_eq_ok.2 ⟨hvalid, (hmerge x).trans hj⟩), hj]
    · refine .inl fun x hx => absorb_of_dropped fun joined hj => hc ?_
      have hjoin := (hmerge x).symm.trans (admitInstance_eq_ok.1 hj).2
      exact (hs.join_ok_iff hx hv (hsafe x hx)).1 ⟨joined, hjoin⟩

/-! ## Several instances -/

/-- What joins keep as it is written in the instances that the schema admits. -/
def Writes (m : Manifest) (instances : List AspectInstance) (s : LatticeSpec) (p : Json) : Prop :=
  ∃ a ∈ instances, m.validate a.params = .ok () ∧ s.Verbatim a.params p

/-- Several instances of which the order does not matter: the manifest joins them by a plain lattice, each is read, and
nothing that is the same is written differently in them. -/
structure Orderless (m : Manifest) (instances : List AspectInstance) (s : LatticeSpec) : Prop where
  plain : s.Plain
  compose_eq : m.compose = some s.toLattice
  reads : ∀ a ∈ instances, m.Reads s a.params
  unambiguous : Lattice.Unambiguous (m.Writes instances s)

theorem params_foldl_composeStep (l : List (AspectInstance × Nat)) (c : Composition) :
    (l.foldl m.composeStep c).params = (l.map (·.1)).foldl (fun params a => m.absorb params a.params) c.params := by
  induction l generalizing c with
  | nil => rfl
  | cons x rest ih =>
    have hstep : (m.composeStep c x).params = m.absorb c.params x.1.params := by
      unfold composeStep absorb
      cases m.admitInstance c.params x.1.params <;> rfl
    rw [List.foldl_cons, ih, hstep, List.map_cons, List.foldl_cons]

theorem params_of_compose? {instances : List AspectInstance} {c : Composition} (h : m.compose? instances = some c) :
    c.params = instances.foldl (fun params a => m.absorb params a.params) .null := by
  simp only [compose?] at h
  split at h
  · cases h
  · cases h
    rw [params_foldl_composeStep, List.zipIdx_map_fst]

variable {instances instances' : List AspectInstance}

theorem Orderless.foldl_absorb (h : m.Orderless instances s) (hp : instances.Perm instances') :
    instances.foldl (fun params a => m.absorb params a.params) .null =
      instances'.foldl (fun params a => m.absorb params a.params) .null := by
  have hexact := h.plain.exact h.unambiguous
  have hcases : ∀ a ∈ instances, (∀ x, s.Carrier x → m.absorb x a.params = x) ∨
      s.WrittenIn (m.Writes instances s) a.params ∧
        ∀ x, s.Carrier x → s.toLattice.join x a.params = .ok (m.absorb x a.params) := by
    intro a ha
    rcases (h.reads a ha).absorb_cases h.plain h.compose_eq with hidle | ⟨hvalid, hc, hjoin⟩
    · exact .inl hidle
    · exact .inr ⟨⟨hc, fun p hp => ⟨a, ha, hvalid, hp⟩⟩, hjoin⟩
  -- the parameters stay in the carrier, written in what the instances have
  have hkeeps : ∀ x, ∀ a ∈ instances, s.WrittenIn (m.Writes instances s) x →
      s.WrittenIn (m.Writes instances s) (m.absorb x a.params) := by
    intro x a ha hx
    rcases hcases a ha with hidle | ⟨hw, hjoin⟩
    · rwa [hidle x hx.1]
    · obtain ⟨y, hy, hwy⟩ := hexact.total hx hw
      cases (hjoin x hx.1).symm.trans hy
      exact hwy
  refine foldl_perm hp hkeeps (fun x a ha b hb hx => ?_) (LatticeSpec.writtenIn_null _ s)
  have hxa := hkeeps x a ha hx
  have hxb := hkeeps x b hb hx
  rcases hcases a ha with hidle | ⟨hwa, hjoina⟩
  · rw [hidle x hx.1, hidle _ hxb.1]
  rcases hcases b hb with hidle | ⟨hwb, hjoinb⟩
  · rw [hidle x hx.1, hidle _ hxa.1]
  have hswap := hexact.swap hx hwa hwb (hjoina x hx.1) (hjoinb _ hxa.1) (hjoinb x hx.1)
  exact Except.ok.inj (hswap.symm.trans (hjoina _ hxb.1))

/-- Instances that come to the same in any order come to the same in any order, or in any order to nothing. -/
theorem Orderless.map_compose? (h : m.Orderless instances s) (hp : instances.Perm instances') :
    (m.compose? instances').map (·.params) = (m.compose? instances).map (·.params) := by
  have hiff : (∃ c, m.compose? instances' = some c) ↔ ∃ c, m.compose? instances = some c := by
    simp only [exists_compose?, hp.mem_iff]
  cases hc : m.compose? instances with
  | none =>
    cases hc' : m.compose? instances' with
    | none => rfl
    | some c' =>
      obtain ⟨c, he⟩ := hiff.1 ⟨c', hc'⟩
      cases hc.symm.trans he
  | some c =>
    obtain ⟨c', hc'⟩ := hiff.2 ⟨c, hc⟩
    rw [hc', Option.map_some, Option.map_some, params_of_compose? hc, params_of_compose? hc', h.foldl_absorb hp]

end Manifest

end Patchbay
