import Patchbay.Gadget.Executor
import Patchbay.Proofs.Contact.Call

/-! Which gadgets read which contacts, and what an executor hears of them. -/

namespace Patchbay.Executor

/-- A gadget in place has an input pin on a contact. -/
def Reads (x : Executor) (id : GadgetId) (contact : ContactId) : Prop :=
  ∃ r, x.gadgets.get? id = some r ∧ contact ∈ r.mount.inputs.values

/-- The readers of a contact are the gadgets with an input pin on it, and contacts without readers are not listed. -/
structure Indexed (x : Executor) : Prop where
  mem_iff : ∀ contact id, (x.readers.getD contact ∅).contains id = true ↔ x.Reads id contact
  inhabited : ∀ contact names, x.readers.get? contact = some names → ∃ id, names.contains id = true

/-! ## The index -/

theorem contains_addReader (id : GadgetId) (readers : Dict Names) (contact c : ContactId) (k : GadgetId) :
    ((addReader id readers contact).getD c ∅).contains k = true ↔
      (c = contact ∧ k = id) ∨ (readers.getD c ∅).contains k = true := by
  rw [addReader, Dict.getD, Dict.get?_insert]
  split
  · next hc =>
    subst hc
    rw [Option.getD_some, Names.contains_add]
    simp
  · next hc => simp [hc, Dict.getD]

theorem contains_foldl_addReader (id : GadgetId) (contacts : List ContactId) (readers : Dict Names)
    (c : ContactId) (k : GadgetId) :
    ((contacts.foldl (addReader id) readers).getD c ∅).contains k = true ↔
      (c ∈ contacts ∧ k = id) ∨ (readers.getD c ∅).contains k = true := by
  induction contacts generalizing readers with
  | nil => simp
  | cons contact rest ih =>
    rw [List.foldl_cons, ih, contains_addReader, List.mem_cons, ← or_assoc, or_and_right,
      or_comm (a := c ∈ rest ∧ k = id)]

theorem contains_dropReader (id : GadgetId) (readers : Dict Names) (contact c : ContactId) (k : GadgetId) :
    ((dropReader id readers contact).getD c ∅).contains k = true ↔
      ¬(c = contact ∧ k = id) ∧ (readers.getD c ∅).contains k = true := by
  unfold dropReader
  split
  · next hn =>
    by_cases hc : c = contact
    · subst hc
      simp [Dict.getD, hn, Dict.contains]
    · simp [hc]
  · next names hs =>
    have herase : (names.erase id).contains k = true ↔ k ≠ id ∧ names.contains k = true :=
      Dict.contains_erase names id k
    simp only
    split
    · next hempty =>
      rw [Dict.isEmpty_iff] at hempty
      rw [Dict.getD, Dict.get?_erase]
      split
      · next hc =>
        subst hc
        rw [hempty] at herase
        simp only [Dict.getD, hs, Option.getD_some, true_and]
        exact herase
      · next hc => simp [hc, Dict.getD]
    · rw [Dict.getD, Dict.get?_insert]
      split
      · next hc =>
        subst hc
        simp only [Dict.getD, hs, Option.getD_some, true_and]
        exact herase
      · next hc => simp [hc, Dict.getD]

theorem contains_foldl_dropReader (id : GadgetId) (contacts : List ContactId) (readers : Dict Names)
    (c : ContactId) (k : GadgetId) :
    ((contacts.foldl (dropReader id) readers).getD c ∅).contains k = true ↔
      ¬(c ∈ contacts ∧ k = id) ∧ (readers.getD c ∅).contains k = true := by
  induction contacts generalizing readers with
  | nil => simp
  | cons contact rest ih =>
    rw [List.foldl_cons, ih, contains_dropReader, List.mem_cons, or_and_right, not_or, ← and_assoc,
      and_comm (a := ¬(c ∈ rest ∧ k = id))]

theorem inhabited_addReader {id : GadgetId} {readers : Dict Names} {contact : ContactId}
    (h : ∀ c names, readers.get? c = some names → ∃ k, names.contains k = true) (c : ContactId)
    (names : Names) (hc : (addReader id readers contact).get? c = some names) :
    ∃ k, names.contains k = true := by
  rw [addReader, Dict.get?_insert] at hc
  split at hc
  · cases hc
    exact ⟨id, (Names.contains_add ..).2 (.inl rfl)⟩
  · exact h c names hc

theorem inhabited_dropReader {id : GadgetId} {readers : Dict Names} {contact : ContactId}
    (h : ∀ c names, readers.get? c = some names → ∃ k, names.contains k = true) (c : ContactId)
    (names : Names) (hc : (dropReader id readers contact).get? c = some names) :
    ∃ k, names.contains k = true := by
  unfold dropReader at hc
  split at hc
  · exact h c names hc
  · next rest hrest =>
    simp only at hc
    split at hc
    · rw [Dict.get?_erase] at hc
      split at hc
      · cases hc
      · exact h c names hc
    · next hne =>
      rw [Dict.get?_insert] at hc
      split at hc
      · cases hc
        by_contra hno
        refine hne (Dict.isEmpty_iff.2 (Dict.eq_empty fun k => ?_))
        rw [← Dict.contains_eq_false_iff, ← Bool.not_eq_true]
        exact fun hk => hno ⟨k, hk⟩
      · exact h c names hc

/-! ## Executors as they are put together -/

/-- An executor as its operations leave it. -/
inductive Built : Executor → Prop
  | new (number) : Built { number }
  | register {x x' id gadget mount} : Built x → x.register id gadget mount = .ok x' → Built x'
  | unregister {x x' id mount} : Built x → x.unregister id = .ok (x', mount) → Built x'
  | subscribe {x} (s) : Built x → Built (x.subscribe s).1
  | unsubscribe {x} (s) : Built x → Built (x.unsubscribe s).1

theorem registration_eq_ok {x : Executor} {id : GadgetId} {r : Registration} :
    x.registration id = .ok r ↔ x.gadgets.get? id = some r := by
  unfold Executor.registration
  split
  · next r' hr => simp [hr]
  · next hr => simp [hr]

theorem Indexed.register {x x' : Executor} {id : GadgetId} {gadget : Gadget} {mount : Mount} (h : x.Indexed)
    (hr : x.register id gadget mount = .ok x') : x'.Indexed := by
  unfold Executor.register at hr
  split at hr
  · cases hr
  next hnew =>
  split at hr
  · cases hr
  cases hr
  have hnone : x.gadgets.get? id = none := Dict.contains_eq_false_iff.1 (Bool.eq_false_iff.2 hnew)
  refine ⟨fun contact k => ?_, ?_⟩
  · rw [contains_foldl_addReader, h.mem_iff]
    simp only [Reads, Dict.get?_insert]
    by_cases hk : k = id
    · simp [hk, hnone]
    · simp [hk]
  · exact foldl_keeps
      (P := fun readers : Dict Names => ∀ c names, readers.get? c = some names → ∃ k, names.contains k = true)
      (fun readers contact _ hs => inhabited_addReader hs) h.inhabited

theorem Indexed.unregister {x x' : Executor} {id : GadgetId} {mount : Mount} (h : x.Indexed)
    (hr : x.unregister id = .ok (x', mount)) : x'.Indexed := by
  obtain ⟨r, hid, hr⟩ := ok_of_bind hr
  cases hr
  have hid : x.gadgets.get? id = some r := registration_eq_ok.1 hid
  refine ⟨fun contact k => ?_, ?_⟩
  · rw [contains_foldl_dropReader, h.mem_iff]
    simp only [Reads, Dict.get?_erase]
    by_cases hk : k = id
    · simp [hk, hid]
    · simp [hk]
  · exact foldl_keeps
      (P := fun readers : Dict Names => ∀ c names, readers.get? c = some names → ∃ k, names.contains k = true)
      (fun readers contact _ hs => inhabited_dropReader hs) h.inhabited

theorem Built.indexed {x : Executor} (h : x.Built) : x.Indexed := by
  induction h with
  | new number =>
    exact ⟨fun contact k => ⟨nofun, fun ⟨r, hr, _⟩ => nomatch hr⟩, nofun⟩
  | register _ hr ih => exact ih.register hr
  | unregister _ hr ih => exact ih.unregister hr
  | subscribe s _ ih => exact ⟨ih.mem_iff, ih.inhabited⟩
  | unsubscribe s _ ih =>
    unfold Executor.unsubscribe
    split
    · exact ⟨ih.mem_iff, ih.inhabited⟩
    · exact ih

/-! ## News -/

theorem contains_dirty {x : Executor} {s : ContactStore} {contact : ContactId} :
    (x.dirty s).contains contact = true ↔
      ∃ m ∈ s.mail, m.recipient = x.listener ∧ m.change.contact = contact := by
  rw [dirty, Names.contains_ofNames]
  simp [ContactStore.lettersTo, and_assoc]

theorem contains_dirty_iff_inbox {x : Executor} {s : ContactStore} {contact : ContactId} :
    (x.dirty s).contains contact = true ↔ ∃ r ∈ s.inbox x.listener, r.contact = contact := by
  rw [contains_dirty]
  simp [ContactStore.inbox, ContactStore.lettersTo, and_assoc]

theorem mem_foldl_join {sets : List Names} {acc : Names} {k : String} :
    (sets.foldl Names.join acc).contains k = true ↔
      acc.contains k = true ∨ ∃ s ∈ sets, s.contains k = true := by
  induction sets generalizing acc with
  | nil => simp
  | cons s rest ih => rw [List.foldl_cons, ih, Names.contains_join, List.exists_mem_cons_iff, or_assoc]

theorem mem_readersOf {x : Executor} {contacts : Names} {id : GadgetId} :
    id ∈ (x.readersOf contacts).keys ↔
      ∃ c, contacts.contains c = true ∧ (x.readers.getD c ∅).contains id = true := by
  rw [Dict.mem_keys, readersOf]
  refine mem_foldl_join.trans ⟨?_, ?_⟩
  · rintro (hn | ⟨names, hnames, hid⟩)
    · cases hn
    · obtain ⟨c, hc, hget⟩ := List.mem_filterMap.1 hnames
      exact ⟨c, Dict.mem_keys.1 hc, by rwa [Dict.getD, hget]⟩
  · rintro ⟨c, hc, hid⟩
    cases hget : x.readers.get? c with
    | none =>
      rw [Dict.getD, hget] at hid
      cases hid
    | some names =>
      rw [Dict.getD, hget] at hid
      exact .inr ⟨names, List.mem_filterMap.2 ⟨c, Dict.mem_keys.2 hc, hget⟩, hid⟩

theorem hasPending_iff {x : Executor} {s : ContactStore} (h : x.Indexed) :
    x.hasPending s = true ↔ ∃ c id, (x.dirty s).contains c = true ∧ x.Reads id c := by
  rw [hasPending, List.any_eq_true]
  constructor
  · rintro ⟨c, hc, hr⟩
    obtain ⟨names, hnames⟩ := Dict.contains_iff.1 hr
    obtain ⟨id, hid⟩ := h.inhabited c names hnames
    exact ⟨c, id, Dict.mem_keys.1 hc, (h.mem_iff c id).1 (by rwa [Dict.getD, hnames])⟩
  · rintro ⟨c, id, hc, hr⟩
    refine ⟨c, Dict.mem_keys.2 hc, ?_⟩
    rw [← h.mem_iff, Dict.getD] at hr
    cases hget : x.readers.get? c with
    | none =>
      rw [hget] at hr
      cases hr
    | some names => exact Dict.contains_iff.2 ⟨names, hget⟩

end Patchbay.Executor
