import Patchbay.Proofs.Lattice.Element

/-! The laws of a join-semilattice for lattices that may refuse to join values of their carrier. What lies below what is
an order all the same, and a join that is granted is the least value above those that went into it. -/

namespace Patchbay.Lattice

variable {l : Lattice} {carrier : Json → Prop}

/-- The laws hold on the values of a carrier, up to equivalence and wherever a join is granted. -/
structure Coherent (l : Lattice) (carrier : Json → Prop) : Prop where
  closed : ∀ {a b c}, carrier a → carrier b → l.join a b = .ok c → carrier c
  refl : ∀ {a}, carrier a → l.equivalent a a = true
  symm : ∀ {a b}, carrier a → carrier b → l.equivalent a b = true → l.equivalent b a = true
  trans : ∀ {a b c}, carrier a → carrier b → carrier c →
    l.equivalent a b = true → l.equivalent b c = true → l.equivalent a c = true
  congr : ∀ {a a' b b' c}, carrier a → carrier a' → carrier b → carrier b' →
    l.equivalent a a' = true → l.equivalent b b' = true → l.join a b = .ok c →
      ∃ c', l.join a' b' = .ok c' ∧ l.equivalent c c' = true
  comm : ∀ {a b c}, carrier a → carrier b → l.join a b = .ok c →
    ∃ c', l.join b a = .ok c' ∧ l.equivalent c c' = true
  assoc : ∀ {a b c bc x}, carrier a → carrier b → carrier c → l.join b c = .ok bc → l.join a bc = .ok x →
    ∃ ab y, l.join a b = .ok ab ∧ l.join ab c = .ok y ∧ l.equivalent x y = true
  idem : ∀ {a}, carrier a → ∃ b, l.join a a = .ok b ∧ l.equivalent b a = true

theorem Lawful.coherent (h : l.Lawful carrier) : l.Coherent carrier where
  closed ha hb hj := (h.element_join ha hb hj).1
  refl := h.refl
  symm := h.symm
  trans := h.trans
  congr hca hca' hcb hcb' ha hb hj := by
    obtain ⟨c', hj', -⟩ := h.total hca' hcb'
    exact ⟨c', hj', h.congr hca hca' hcb hcb' ha hb hj hj'⟩
  comm hca hcb hj := by
    obtain ⟨c', hj', -⟩ := h.total hcb hca
    exact ⟨c', hj', h.comm hca hcb hj hj'⟩
  assoc hca hcb hcc hbc hx := by
    obtain ⟨ab, hab, hm⟩ := h.total hca hcb
    obtain ⟨y, hy, hmy⟩ := h.total hm hcc
    have hmx := (h.element_join hca (h.element_join hcb hcc hbc).1 hx).1
    exact ⟨ab, y, hab, hy, h.symm hmy hmx (h.assoc hca hcb hcc hab hy hbc hx)⟩
  idem hca := by
    obtain ⟨b, hj, -⟩ := h.total hca hca
    exact ⟨b, hj, h.idem hca hj⟩

theorem Lawful.below_null (h : l.Lawful carrier) {a : Json} (ha : carrier a) : l.Below .null a :=
  (h.below_iff h.null_mem ha).2 (h.element_null ▸ bot_le)

namespace Coherent

theorem below_refl (h : l.Coherent carrier) {a : Json} (ha : carrier a) : l.Below a a := h.idem ha

theorem below_trans (h : l.Coherent carrier) {a b c : Json} (ha : carrier a) (hb : carrier b) (hc : carrier c)
    (hab : l.Below a b) (hbc : l.Below b c) : l.Below a c := by
  obtain ⟨p, hp, hpb⟩ := hab
  obtain ⟨q, hq, hqc⟩ := hbc
  have hmp : carrier p := h.closed hb ha hp
  have hmq : carrier q := h.closed hc hb hq
  -- `b` may be replaced in `c ⊔ b` by `b ⊔ a`, and then `c ⊔ b` by `c`
  obtain ⟨r, hr, hqr⟩ := h.congr hc hc hb hmp (h.refl hc) (h.symm hmp hb hpb) hq
  have hmr : carrier r := h.closed hc hmp hr
  obtain ⟨q', x, hq', hx, hrx⟩ := h.assoc hc hb ha hp hr
  rw [hq] at hq'
  cases hq'
  have hmx : carrier x := h.closed hmq ha hx
  obtain ⟨y, hy, hxy⟩ := h.congr hmq hc ha ha hqc (h.refl ha) hx
  have hmy : carrier y := h.closed hc ha hy
  have hqx : l.equivalent q x = true := h.trans hmq hmr hmx hqr hrx
  have hqy : l.equivalent q y = true := h.trans hmq hmx hmy hqx hxy
  exact ⟨y, hy, h.trans hmy hmq hc (h.symm hmq hmy hqy) hqc⟩

/-- What is equivalent may stand for each other on the upper side. -/
theorem below_of_equivalent (h : l.Coherent carrier) {a b c : Json} (ha : carrier a) (hb : carrier b) (hc : carrier c)
    (hab : l.Below a b) (he : l.equivalent b c = true) : l.Below a c := by
  obtain ⟨p, hp, hpb⟩ := hab
  obtain ⟨q, hq, hpq⟩ := h.congr hb hc ha ha he (h.refl ha) hp
  have hmp : carrier p := h.closed hb ha hp
  have hmq : carrier q := h.closed hc ha hq
  exact ⟨q, hq, h.trans hmq hmp hc (h.symm hmp hmq hpq) (h.trans hmp hb hc hpb he)⟩

theorem below_join_right (h : l.Coherent carrier) {a v c : Json} (ha : carrier a) (hv : carrier v)
    (hj : l.join a v = .ok c) : l.Below v c := by
  have hc : carrier c := h.closed ha hv hj
  obtain ⟨i, hi, hiv⟩ := h.idem hv
  have hmi : carrier i := h.closed hv hv hi
  -- `a ⊔ v` is `a ⊔ (v ⊔ v)`, which is `(a ⊔ v) ⊔ v`
  obtain ⟨x, hx, hcx⟩ := h.congr ha ha hv hmi (h.refl ha) (h.symm hmi hv hiv) hj
  obtain ⟨c', y, hc', hy, hxy⟩ := h.assoc ha hv hv hi hx
  rw [hj] at hc'
  cases hc'
  have hmx : carrier x := h.closed ha hmi hx
  have hmy : carrier y := h.closed hc hv hy
  exact ⟨y, hy, h.symm hc hmy (h.trans hc hmx hmy hcx hxy)⟩

theorem below_join_left (h : l.Coherent carrier) {a v c : Json} (ha : carrier a) (hv : carrier v)
    (hj : l.join a v = .ok c) : l.Below a c := by
  obtain ⟨c', hj', hcc'⟩ := h.comm ha hv hj
  have hc : carrier c := h.closed ha hv hj
  have hc' : carrier c' := h.closed hv ha hj'
  exact h.below_of_equivalent ha hc' hc (h.below_join_right hv ha hj') (h.symm hc hc' hcc')

theorem join_below (h : l.Coherent carrier) {a b c u : Json} (ha : carrier a) (hb : carrier b) (hu : carrier u)
    (hau : l.Below a u) (hbu : l.Below b u) (hj : l.join a b = .ok c) : l.Below c u := by
  have hc : carrier c := h.closed ha hb hj
  obtain ⟨p, hp, hpu⟩ := hau
  obtain ⟨q, hq, hqu⟩ := hbu
  have hmp : carrier p := h.closed hu ha hp
  have hmq : carrier q := h.closed hu hb hq
  -- `b ⊔ u` is `b ⊔ (a ⊔ u)`, which is `(b ⊔ a) ⊔ u`
  obtain ⟨p', hp', hpp'⟩ := h.comm hu ha hp
  have hmp' : carrier p' := h.closed ha hu hp'
  have hup' : l.equivalent u p' = true := h.trans hu hmp hmp' (h.symm hmp hu hpu) hpp'
  obtain ⟨q', hq', hqq'⟩ := h.comm hu hb hq
  have hmq' : carrier q' := h.closed hb hu hq'
  obtain ⟨x, hx, hqx⟩ := h.congr hb hb hu hmp' (h.refl hb) hup' hq'
  have hmx : carrier x := h.closed hb hmp' hx
  obtain ⟨d, y, hd, hy, hxy⟩ := h.assoc hb ha hu hp' hx
  have hmd : carrier d := h.closed hb ha hd
  have hmy : carrier y := h.closed hmd hu hy
  have huy : l.equivalent u y = true :=
    h.trans hu hmq hmy (h.symm hmq hu hqu) (h.trans hmq hmq' hmy hqq' (h.trans hmq' hmx hmy hqx hxy))
  -- and `b ⊔ a` is `a ⊔ b`
  obtain ⟨d', hd', hcd⟩ := h.comm ha hb hj
  rw [hd] at hd'
  cases hd'
  obtain ⟨z, hz, hyz⟩ := h.congr hmd hc hu hu (h.symm hc hmd hcd) (h.refl hu) hy
  have hmz : carrier z := h.closed hc hu hz
  obtain ⟨z', hz', hzz'⟩ := h.comm hc hu hz
  have hmz' : carrier z' := h.closed hu hc hz'
  have huz' : l.equivalent u z' = true := h.trans hu hmy hmz' huy (h.trans hmy hmz hmz' hyz hzz')
  exact ⟨z', hz', h.symm hu hmz' huz'⟩

end Coherent

end Patchbay.Lattice
