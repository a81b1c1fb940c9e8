import Patchbay.Proofs.Contact.Fed
import Patchbay.Proofs.Lattice.Unread

/-! Typed contacts. As long as nothing is taken over unread that is not what it is taken for, a contact on a described
lattice holds values of its carrier, refuses all others, and ends with the same element in whatever order the writes
come. -/

namespace Patchbay

open LatticeSpec

namespace ContactStore

variable {st : ContactStore} {id : ContactId} {s : LatticeSpec} {free : Json → Prop} {a b v : Json}
  {ps qs : List (ContactId × Json)}

/-- The contact is on the described lattice, and holds the value. -/
def Holds (st : ContactStore) (id : ContactId) (s : LatticeSpec) (v : Json) : Prop :=
  ∃ c, st.contacts.get? id = some c ∧ c.lattice = s.toLattice ∧ c.value = v

theorem Holds.value (h : st.Holds id s v) : st.value id = .ok v := by
  obtain ⟨c, hc, -, rfl⟩ := h
  exact value_eq_ok.2 ⟨c, hc, rfl⟩

theorem Holds.update_ok_iff (h : st.Holds id s a) :
    (∃ r, st.update id v = .ok r) ↔ ∃ joined, s.toLattice.join a v = .ok joined := by
  obtain ⟨c, hc, hl, rfl⟩ := h
  rw [← hl]
  constructor
  · rintro ⟨⟨st', changed⟩, hu⟩
    obtain ⟨c', joined, hc', hj, -⟩ := update_cases hu
    cases hc.symm.trans hc'
    exact ⟨joined, hj⟩
  · rintro ⟨joined, hj⟩
    exact exists_update hc hj

/-! ## One write -/

/-- What a contact that holds `a` holds after `v` was written to it. -/
inductive Takes (s : LatticeSpec) (a v : Json) : Json → Prop
  | raised {b : Json} (hj : s.toLattice.join a v = .ok b) : Takes s a v b
  | same {b : Json} (hj : s.toLattice.join a v = .ok b) (he : s.toLattice.equivalent b a = true) : Takes s a v a
  | refused (hj : ¬∃ b, s.toLattice.join a v = .ok b) : Takes s a v a

theorem Holds.write_self (h : st.Holds id s a) (v : Json) : ∃ b, (st.write (id, v)).Holds id s b ∧ Takes s a v b := by
  cases hu : st.update id v with
  | error cause =>
    rw [write_of_refused hu]
    refine ⟨a, h, .refused fun hj => ?_⟩
    obtain ⟨r, hr⟩ := h.update_ok_iff.2 hj
    cases hu.symm.trans hr
  | ok r =>
    rw [write_of_update hu]
    obtain ⟨c, hc, hl, rfl⟩ := h
    obtain ⟨c', joined, hc', hj, hcases⟩ := update_cases hu
    cases hc.symm.trans hc'
    rw [hl] at hj hcases
    rcases hcases with ⟨he, -, hst⟩ | ⟨-, -, change, -, hst⟩
    · exact ⟨c.value, ⟨c, hst ▸ hc, hl, rfl⟩, .same hj he⟩
    · refine ⟨joined, ⟨raised c joined, ?_, hl, rfl⟩, .raised hj⟩
      rw [hst]
      exact Dict.get?_insert_self ..

theorem Holds.write_of_ne (h : st.Holds id s a) {p : ContactId × Json} (hp : p.1 ≠ id) : (st.write p).Holds id s a := by
  obtain ⟨c, hc, hl, hv⟩ := h
  exact ⟨c, (get?_write_of_ne st hp.symm).trans hc, hl, hv⟩

theorem Takes.carrier (hs : s.Plain) (ha : s.CarrierOver free a) (hv : v.Valid) (hsafe : s.SafeAt a v)
    (hfree : s.Carrier v → s.CarrierOver free v) (h : Takes s a v b) : s.CarrierOver free b := by
  cases h with
  | raised hj =>
    have hmem : s.Carrier v := (hs.join_ok_iff (ha.mono fun _ _ => trivial) hv hsafe).1 ⟨_, hj⟩
    obtain ⟨c, hj', hc⟩ := hs.commutative.total ha (hfree hmem)
    cases hj.symm.trans hj'
    exact hc
  | same => exact ha
  | refused => exact ha

theorem Takes.element (hs : s.Plain) (ha : s.CarrierOver free a) (hv : v.Valid) (hsafe : s.SafeAt a v)
    (hfree : s.Carrier v → s.CarrierOver free v) (h : Takes s a v b) (hl : s.toLattice.Lawful (s.CarrierOver free)) :
    hl.element b = hl.element a ⊔ hl.element v := by
  have hjoin := hs.join_ok_iff (ha.mono fun _ _ => trivial) hv hsafe
  cases h with
  | raised hj => exact (hl.element_join ha (hfree (hjoin.1 ⟨_, hj⟩)) hj).2
  | same hj he =>
    obtain ⟨hb, hjoined⟩ := hl.element_join ha (hfree (hjoin.1 ⟨_, hj⟩)) hj
    rw [← hjoined, (hl.element_eq_iff hb ha).2 he]
  | refused hj =>
    have hmem : ¬s.CarrierOver free v := fun hc => hj (hjoin.2 (hc.mono fun _ _ => trivial))
    rw [hl.element_eq_bot hmem, sup_bot_eq]

/-! ## Many writes -/

/-- What is written to a contact. -/
def sentTo (id : ContactId) (ps : List (ContactId × Json)) : List Json := (ps.filter fun p => p.1 = id).map (·.2)

/-- Each write to the contact is safe at the value that it meets there. -/
def SafeFor (s : LatticeSpec) (id : ContactId) : ContactStore → List (ContactId × Json) → Prop
  | _, [] => True
  | st, p :: rest =>
    (p.1 = id → p.2.Valid ∧ ∀ a, st.Holds id s a → s.SafeAt a p.2) ∧ (st.write p).SafeFor s id rest

theorem safeFor_append (s : LatticeSpec) (id : ContactId) (st : ContactStore) (ps qs : List (ContactId × Json)) :
    st.SafeFor s id (ps ++ qs) ↔ st.SafeFor s id ps ∧ (st.writeAll ps).SafeFor s id qs := by
  induction ps generalizing st with
  | nil => exact ⟨fun h => ⟨trivial, h⟩, And.right⟩
  | cons p rest ih =>
    rw [List.cons_append, SafeFor, SafeFor, ih, and_assoc]
    rfl

/-- After all the writes the contact holds what its value and theirs join to, those that are refused counting as
null. -/
theorem Holds.writeAll (hs : s.Plain) (h : st.Holds id s a) (ha : s.CarrierOver free a) (hsafe : st.SafeFor s id ps)
    (hfree : ∀ v ∈ sentTo id ps, s.Carrier v → s.CarrierOver free v) :
    ∃ b, (st.writeAll ps).Holds id s b ∧ s.CarrierOver free b ∧
      ∀ hl : s.toLattice.Lawful (s.CarrierOver free),
        hl.element b = (sentTo id ps).foldl (fun x v => x ⊔ hl.element v) (hl.element a) := by
  induction ps generalizing st a with
  | nil => exact ⟨a, h, ha, fun _ => rfl⟩
  | cons p rest ih =>
    obtain ⟨hp, hrest⟩ := hsafe
    by_cases hid : p.1 = id
    · have hsent : sentTo id (p :: rest) = p.2 :: sentTo id rest := by simp [sentTo, hid]
      rw [hsent] at hfree ⊢
      obtain ⟨hfirst, hothers⟩ := List.forall_mem_cons.1 hfree
      obtain ⟨hv, hsafe⟩ := hp hid
      obtain ⟨b, hb, htakes⟩ := h.write_self p.2
      obtain rfl := hid
      obtain ⟨c, hc, hmem, helement⟩ := ih hb (htakes.carrier hs ha hv (hsafe a h) hfirst) hrest hothers
      refine ⟨c, hc, hmem, fun hl => ?_⟩
      rw [helement hl, htakes.element hs ha hv (hsafe a h) hfirst hl]
      rfl
    · have hsent : sentTo id (p :: rest) = sentTo id rest := by simp [sentTo, hid]
      rw [hsent] at hfree ⊢
      exact ih (h.write_of_ne hid) ha hrest hfree

/-! ## Registered contacts -/

theorem bottom_toLattice (s : LatticeSpec) : s.toLattice.bottom = .null := by
  cases s <;> rfl

theorem holds_of_register (hs : s.Plain) {st₁ : ContactStore} {initial : Option Json}
    (hr : st.register id s.toLattice initial = .ok st₁) (hi : ∀ v ∈ initial, v.Valid ∧ s.SafeAt .null v)
    (hfree : ∀ v ∈ initial, s.Carrier v → s.CarrierOver free v) : ∃ a, st₁.Holds id s a ∧ s.CarrierOver free a := by
  obtain ⟨a, -, ha, rfl⟩ := register_cases hr
  refine ⟨a, ⟨_, Dict.get?_insert_self .., rfl, rfl⟩, ?_⟩
  cases initial with
  | none =>
    cases ha
    rw [bottom_toLattice]
    exact carrierOver_null s
  | some v =>
    have hj := ok_of_mapError ha
    rw [bottom_toLattice] at hj
    obtain ⟨hv, hsafe⟩ := hi v rfl
    exact (Takes.raised hj).carrier hs (carrierOver_null s) hv hsafe (hfree v rfl)

/-- A contact that is registered on a lattice of records and simple lattices, where no join takes anything over unread
that is not what it is taken for: what it holds is always of its carrier, an update is granted for the values of the
carrier and refused for all others, and the writes, those that are refused among them, may come in any order. Values of
the carrier are safe, and so is every value on a simple lattice other than a disjunction. -/
theorem typed_contact (hs : s.Plain) {st₁ : ContactStore} {initial : Option Json}
    (hr : st.register id s.toLattice initial = .ok st₁) (hi : ∀ v ∈ initial, v.Valid ∧ s.SafeAt .null v) :
    (∀ a v, s.Carrier v ∨ (s.Simple ∧ s ≠ .disjunction) → s.SafeAt a v) ∧
    (∀ ps, st₁.SafeFor s id ps → ∃ a, (st₁.writeAll ps).value id = .ok a ∧ s.Carrier a) ∧
    (∀ ps v, st₁.SafeFor s id (ps ++ [(id, v)]) → ((∃ r, (st₁.writeAll ps).update id v = .ok r) ↔ s.Carrier v)) ∧
    (∀ free, Json.Discrete free → (∀ v ∈ initial, s.Carrier v → s.CarrierOver free v) →
      ∀ ps qs, st₁.SafeFor s id ps → st₁.SafeFor s id qs → (sentTo id ps).Perm (sentTo id qs) →
        (∀ v ∈ sentTo id ps, s.Carrier v → s.CarrierOver free v) →
          ∃ a b, (st₁.writeAll ps).value id = .ok a ∧ (st₁.writeAll qs).value id = .ok b ∧
            s.toLattice.equivalent a b = true) := by
  have hrun : ∀ ps, st₁.SafeFor s id ps → ∃ a, (st₁.writeAll ps).Holds id s a ∧ s.Carrier a := by
    intro ps hps
    obtain ⟨a, ha, hmem⟩ := holds_of_register hs hr hi fun v _ hv => hv
    obtain ⟨b, hb, hmem, -⟩ := ha.writeAll hs hmem hps fun v _ hv => hv
    exact ⟨b, hb, hmem⟩
  refine ⟨fun a v hv => ?_, fun ps hps => ?_, fun ps v hps => ?_, fun free hf hinit ps qs hps hqs hperm hfree => ?_⟩
  · rcases hv with hv | ⟨hsimple, hne⟩
    · exact safeAt_of_carrier hv a
    · exact hsimple.safeAt hne a v
  · obtain ⟨a, ha, hmem⟩ := hrun ps hps
    exact ⟨a, ha.value, hmem⟩
  · obtain ⟨hps, ⟨hlast, -⟩⟩ := (safeFor_append s id st₁ ps [(id, v)]).1 hps
    obtain ⟨a, ha, hmem⟩ := hrun ps hps
    obtain ⟨hv, hsafe⟩ := hlast rfl
    rw [ha.update_ok_iff, hs.join_ok_iff hmem hv (hsafe a ha)]
  · obtain ⟨a, ha, hmem⟩ := holds_of_register hs hr hi hinit
    obtain ⟨b, hb, hmb, heb⟩ := ha.writeAll hs hmem hps hfree
    obtain ⟨c, hc, hmc, hec⟩ := ha.writeAll hs hmem hqs fun v hv => hfree v (hperm.mem_iff.2 hv)
    have hl := hs.lawful hf
    refine ⟨b, c, hb.value, hc.value, (hl.element_eq_iff hmb hmc).1 ?_⟩
    rw [heb hl, hec hl, hl.foldl_sup_perm hperm]

/-- A record that is sent two counts, in either order. -/
theorem typed_contact_tally :
    ∃ st₁, empty.register "c" (toLattice (.record "tally" [("n", .max)])) none = .ok st₁ ∧
      ∃ a b, (st₁.writeAll [("c", .obj [("n", .nat 1)]), ("c", .obj [("n", .nat 2)])]).value "c" = .ok a ∧
        (st₁.writeAll [("c", .obj [("n", .nat 2)]), ("c", .obj [("n", .nat 1)])]).value "c" = .ok b ∧
        (toLattice (.record "tally" [("n", .max)])).equivalent a b = true := by
  have hint (i : Nat) (hi : i ≤ 2) : (Json.nat i).Valid := .int (by simp only [minInt64, maxNat64]; omega)
  have hvalid (i : Nat) (hi : i ≤ 2) : (Json.obj [("n", .nat i)]).Valid :=
    .obj (List.pairwise_singleton _ _) (by simpa using hint i hi)
  have hcount (free : Json → Prop) (i : Nat) (hi : i ≤ 2) :
      CarrierOver free (.record "tally" [("n", .max)]) (.obj [("n", .nat i)]) := by
    refine .obj (List.pairwise_singleton _ _) (fun k t v hk hv => ?_) fun k v hk hv => ?_
    all_goals
      obtain rfl : k = "n" := by simpa using Entries.mem_keys_of_find? (Option.isSome_of_mem hv)
      cases hk
    cases hv
    obtain ⟨x, hx⟩ := (hint i hi).exists_toDouble?
    exact .whole (.inr ⟨_, x, rfl, hx⟩)
  obtain ⟨st₁, hr⟩ : ∃ st₁, empty.register "c" (toLattice (.record "tally" [("n", .max)])) none = .ok st₁ := ⟨_, rfl⟩
  have hsafe (i j : Nat) (hi : i ≤ 2) (hj : j ≤ 2) : st₁.SafeFor (.record "tally" [("n", .max)]) "c"
      [("c", .obj [("n", .nat i)]), ("c", .obj [("n", .nat j)])] :=
    ⟨fun _ => ⟨hvalid i hi, fun a _ => safeAt_of_carrier (hcount _ i hi) a⟩,
      fun _ => ⟨hvalid j hj, fun a _ => safeAt_of_carrier (hcount _ j hj) a⟩, trivial⟩
  obtain ⟨-, -, -, horder⟩ :=
    typed_contact (.record (by simpa using Plain.simple .max)) hr (by simp)
  refine ⟨st₁, hr, horder _ Json.discrete_normal (by simp) _ _ (hsafe 1 2 (by decide) (by decide))
    (hsafe 2 1 (by decide) (by decide)) (.swap _ _ _) (List.forall_mem_cons.2 ⟨fun _ => hcount _ 1 (by decide), ?_⟩)⟩
  exact List.forall_mem_singleton.2 fun _ => hcount _ 2 (by decide)

/-- A contact for records takes a string while it holds null, and from then on refuses the record that it is for. It
keeps the record if that comes first. -/
theorem record_contact_takes_string :
    let s := LatticeSpec.record "r" [("n", .max)]
    ¬s.Carrier (.str "x") ∧
    ∃ st₁, empty.register "c" s.toLattice none = .ok st₁ ∧
      (st₁.writeAll [("c", .str "x")]).value "c" = .ok (.str "x") ∧
      (st₁.writeAll [("c", .str "x"), ("c", .obj [("n", .nat 1)])]).value "c" = .ok (.str "x") ∧
      (st₁.writeAll [("c", .obj [("n", .nat 1)]), ("c", .str "x")]).value "c" = .ok (.obj [("n", .nat 1)]) := by
  refine ⟨fun h => ?_, _, rfl, rfl, rfl, rfl⟩
  cases h with
  | whole h => cases h

end ContactStore

end Patchbay
