import Patchbay.Proofs.Contact.Call
import Patchbay.Proofs.Lattice.Order

/-! The chronicle of a contact: what its changes tell of it. On an orderly lattice they lead upward from the value
that the contact was registered with to the one that it holds, and none is missing. -/

namespace Patchbay

/-- Changes lead from one value to another, each of them on from where the one before it ended. -/
def Leads : Json → List ContactChange → Json → Prop
  | v, [], w => v = w
  | v, r :: rest, w => r.old = v ∧ Leads r.new rest w

theorem Leads.append {v w : Json} {news : List ContactChange} (h : Leads v news w) {r : ContactChange}
    (hr : r.old = w) : Leads v (news ++ [r]) r.new := by
  induction news generalizing v with
  | nil => exact ⟨hr.trans h.symm, rfl⟩
  | cons x rest ih => exact ⟨h.1, ih h.2⟩

theorem Leads.mem {v w : Json} {news : List ContactChange} (h : Leads v news w) :
    w ∈ v :: news.map (·.new) := by
  induction news generalizing v with
  | nil => exact List.mem_singleton.2 h.symm
  | cons x rest ih => exact List.mem_cons_of_mem v (ih h.2)

/-- The changes of a contact since it was registered with a first value. -/
structure Chronicle (l : Lattice) (first : Json) (news : List ContactChange) (c : Contact) : Prop where
  leads : Leads first news c.value
  versions : news.map (·.version) = List.range' 1 c.version
  strict : ∀ r ∈ news, l.equivalent r.old r.new = false
  upward : (first :: news.map (·.new)).Pairwise l.Below

/-- A chronicle of values that the lattice accepts. The present value is above all of them. -/
structure Told (l : Lattice) (carrier : Json → Prop) (first : Json) (news : List ContactChange) (c : Contact) : Prop
    extends Chronicle l first news c where
  lattice_eq : c.lattice = l
  accepted : ∀ v ∈ first :: news.map (·.new), carrier v
  top : ∀ v ∈ first :: news.map (·.new), l.Below v c.value

namespace Told

variable {l : Lattice} {carrier : Json → Prop} {first : Json} {news : List ContactChange} {c : Contact}

theorem carrier_value (h : Told l carrier first news c) : carrier c.value := h.accepted _ h.leads.mem

theorem register (hl : l.Orderly carrier) {id : ContactId} (hv : carrier first) :
    Told l carrier first [] { id, lattice := l, value := first } where
  leads := rfl
  versions := rfl
  strict := nofun
  upward := List.pairwise_singleton _ _
  lattice_eq := rfl
  accepted v hm := by
    rw [List.mem_singleton.1 hm]
    exact hv
  top v hm := by
    rw [List.mem_singleton.1 hm]
    exact hl.coherent.below_refl hv

theorem raise (hl : l.Orderly carrier) (h : Told l carrier first news c) (id : ContactId) {v joined : Json}
    (hj : l.join c.value v = .ok joined) (hne : l.equivalent joined c.value = false) :
    Told l carrier first (news ++ [⟨id, c.value, joined, c.version + 1⟩]) (ContactStore.raised c joined) := by
  have hc : carrier c.value := h.carrier_value
  obtain ⟨hjoined, hv⟩ := hl.accepted hc hj
  have hv : carrier v := hv.resolve_right (by rw [hne]; exact Bool.false_ne_true)
  have habove : ∀ w ∈ first :: news.map (·.new), l.Below w joined := fun w hw =>
    hl.coherent.below_trans (h.accepted w hw) hc hjoined (h.top w hw) (hl.coherent.below_join_left hc hv hj)
  have hlist : first :: (news ++ [(⟨id, c.value, joined, c.version + 1⟩ : ContactChange)]).map (·.new) =
      (first :: news.map (·.new)) ++ [joined] := by
    rw [List.map_append, List.cons_append]
    rfl
  refine ⟨⟨h.leads.append rfl, ?_, ?_, ?_⟩, h.lattice_eq, ?_, ?_⟩
  · rw [List.map_append, h.versions, ContactStore.raised, List.range'_concat]
    simp [Nat.add_comm]
  · intro r hr
    rcases List.mem_append.1 hr with hr | hr
    · exact h.strict r hr
    · rw [List.mem_singleton.1 hr, Bool.eq_false_iff]
      intro he
      rw [hl.symm hc hjoined he] at hne
      cases hne
  · rw [hlist, List.pairwise_append]
    exact ⟨h.upward, List.pairwise_singleton _ _, fun w hw x hx => List.mem_singleton.1 hx ▸ habove w hw⟩
  · rw [hlist]
    intro w hw
    rcases List.mem_append.1 hw with hw | hw
    · exact h.accepted w hw
    · exact List.mem_singleton.1 hw ▸ hjoined
  · rw [hlist]
    intro w hw
    rcases List.mem_append.1 hw with hw | hw
    · exact habove w hw
    · rw [List.mem_singleton.1 hw]
      exact hl.coherent.below_refl hjoined

variable {s : ContactStore} {id : ContactId}

theorem write (hl : l.Orderly carrier) (h : Told l carrier first news c) (hc : s.contacts.get? id = some c)
    (p : ContactId × Json) :
    ∃ c', (s.write p).contacts.get? id = some c' ∧
      Told l carrier first (news ++ (s.changeOf p.1 p.2).toList.filter fun r => r.contact = id) c' := by
  rcases s.write_cases p with ⟨hn, hw⟩ | ⟨d, joined, hd, hj, hne, hn, hw⟩
  · rw [hn, hw]
    exact ⟨c, hc, by simpa using h⟩
  · rw [hn, hw]
    by_cases hp : p.1 = id
    · rw [hp, hc] at hd
      cases hd
      rw [h.lattice_eq] at hj hne
      refine ⟨ContactStore.raised c joined, by rw [hp]; exact Dict.get?_insert_self .., ?_⟩
      simpa [hp] using h.raise hl id hj hne
    · refine ⟨c, ?_, by simpa [hp] using h⟩
      rw [Dict.get?_insert_of_ne _ (Ne.symm hp), hc]

theorem writeAll (hl : l.Orderly carrier) (h : Told l carrier first news c) (hc : s.contacts.get? id = some c)
    (ps : List (ContactId × Json)) :
    ∃ c', (s.writeAll ps).contacts.get? id = some c' ∧
      Told l carrier first (news ++ (s.changes ps).filter fun r => r.contact = id) c' := by
  induction ps generalizing s news c with
  | nil => exact ⟨c, hc, by simpa [ContactStore.changes] using h⟩
  | cons p rest ih =>
    obtain ⟨c', hc', h'⟩ := h.write hl hc p
    obtain ⟨c'', hc'', h''⟩ := ih h' hc'
    rw [List.append_assoc, ← List.filter_append] at h''
    exact ⟨c'', hc'', h''⟩

/-- Whatever call is made, the chronicle of a contact goes on, unless the contact is removed. -/
theorem perform (hl : l.Orderly carrier) (h : Told l carrier first news c) (hc : s.contacts.get? id = some c)
    {call : StoreCall} {s' : ContactStore} (hp : call.perform s = .ok s') (hr : call ≠ .remove id) :
    ∃ c', s'.contacts.get? id = some c' ∧
      Told l carrier first (news ++ (s.changes call.writes).filter fun r => r.contact = id) c' := by
  by_cases hw : call.writes = []
  · refine ⟨c, StoreCall.get?_perform hp hw hr hc, ?_⟩
    simpa [hw, ContactStore.changes] using h
  · rw [StoreCall.writeAll_perform hp hw]
    exact h.writeAll hl hc call.writes

end Told

/-- A contact is registered with its lattice's bottom, or with a value joined over it. -/
theorem carrier_initialValue {l : Lattice} {carrier : Json → Prop} (hl : l.Orderly carrier) {id : ContactId}
    {initial : Option Json} {v : Json} (h : ContactStore.initialValue id l initial = .ok v) : carrier v := by
  cases initial with
  | none =>
    cases h
    exact hl.bottom_mem
  | some w => exact (hl.accepted hl.bottom_mem (ok_of_mapError h)).1

end Patchbay
