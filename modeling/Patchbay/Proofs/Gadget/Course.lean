import Patchbay.Proofs.Gadget.Monotone

/-! The course of a bench whose gadgets are monotone. Whatever changed on a gadget's pins, the gadget has news of it,
has its turn ahead, waits with its present inputs, or has its answer delivered; and no contact rises above what is
closed. -/

namespace Patchbay

namespace Bench

/-- The executor has heard that a contact changed which a pin of the gadget is on. -/
def News (b : Bench) (r : Registration) : Prop :=
  ∃ pin ∈ r.gadget.inputs, ∃ contact, r.mount.inputs.get? pin = some contact ∧
    (b.executor.dirty b.engine.store).contains contact = true

/-- The executor listens to the store. -/
def Listens (b : Bench) : Prop := ∃ n, (n, b.executor.listener) ∈ b.engine.store.listeners

variable {b b' : Bench}

theorem SameSetup.listens (h : b.SameSetup b') (hl : b.Listens) : b'.Listens := by
  rw [Listens, h.listener_eq, h.network.listeners_eq]
  exact hl

theorem News.advance {r : Registration} (hn : b.News r) (hs : b.SameSetup b')
    (ha : b.engine.store.Advances b'.engine.store) : b'.News r := by
  obtain ⟨pin, hp, contact, hc, hd⟩ := hn
  obtain ⟨m, hm, hrec, he⟩ := Executor.contains_dirty.1 hd
  obtain ⟨letters, hmail, -⟩ := ha.news
  refine ⟨pin, hp, contact, hc, Executor.contains_dirty.2 ⟨m, ?_, hs.listener_eq ▸ hrec, he⟩⟩
  rw [hmail]
  exact List.mem_append_right _ hm

/-- A gadget has news, or its pins are as they were. -/
theorem news_or_same (hs : b.SameSetup b') (ha : b.engine.store.Advances b'.engine.store) (hl : b.Listens)
    (r : Registration) : b'.News r ∨ ∀ pin ∈ r.gadget.inputs, b'.pinValue r pin = b.pinValue r pin := by
  refine or_iff_not_imp_left.2 fun hno pin hp => ?_
  unfold pinValue
  split
  · next contact hc =>
    obtain ⟨letters, hmail, hnews⟩ := ha.news
    obtain ⟨n, hn⟩ := hl
    rcases hnews contact with hsame | hletters
    · rw [ContactStore.value, ContactStore.value, ContactStore.contact, ContactStore.contact, hsame]
    · obtain ⟨m, hm, hrec, he⟩ := hletters _ hn
      refine absurd ⟨pin, hp, contact, hc, Executor.contains_dirty.2 ⟨m, ?_, ?_, he⟩⟩ hno
      · rw [hmail]
        exact List.mem_append_left _ hm
      · rw [hs.listener_eq]
        exact hrec
  · rfl

end Bench

namespace Lattice.Lawful

variable {l : Lattice} {carrier : Json → Prop} (h : l.Lawful carrier)

/-- What the gadget answers to its present inputs has been delivered. One without inputs has no turns. -/
def Served (b : Bench) (id : GadgetId) (r : Registration) : Prop :=
  r.gadget.inputs ≠ [] → ∀ x, b.readInputs r = .ok x → Gadget.allPresent r.gadget.inputs x = true →
    ∀ pin contact, r.mount.outputs.get? pin = some contact → b.engine.store.contains contact = true →
      h.element ((r.answer id x).getD pin .null) ≤ h.level b.engine.store contact

/-- The gadget will come to its present inputs, or it has been served. -/
def Owed (b : Bench) (due : List GadgetId) (waiting : List Waiting) (id : GadgetId) (r : Registration) : Prop :=
  b.News r ∨ id ∈ due ∨ (∃ w ∈ waiting, w.gadget = id ∧ b.readInputs r = .ok w.inputs) ∨ h.Served b id r

/-- A bench that began as `b₀` and has had some updates, with gadgets whose turn is ahead and gadgets that wait. -/
structure Course (b₀ : Bench) (updates : List (ContactId × Json)) (b : Bench) (due : List GadgetId)
    (waiting : List Waiting) : Prop where
  setup : b₀.SameSetup b
  atRest : h.AtRest b.engine
  live : ∀ id ∈ due, ∀ r, b₀.executor.gadgets.get? id = some r → r.gadget.inputs ≠ []
  fits : ∀ w ∈ waiting, ∀ r, b₀.executor.gadgets.get? w.gadget = some r → r.Fits carrier w.inputs
  owed : ∀ id r, b₀.executor.gadgets.get? id = some r → h.Owed b due waiting id r
  updated : ∀ p ∈ updates, b₀.engine.store.contains p.1 = true →
    h.element p.2 ≤ h.level b.engine.store p.1
  bounded : ∀ F, h.Closed b₀ updates F → (∀ id, h.level b.engine.store id ≤ F id) ∧
    ∀ w ∈ waiting, ∀ r, b₀.executor.gadgets.get? w.gadget = some r → h.Under r w.inputs F

variable {h} {b₀ b b' : Bench} {updates : List (ContactId × Json)} {due : List GadgetId}
  {waiting : List Waiting}

theorem Owed.advance {id : GadgetId} {r : Registration} (ho : h.Owed b due waiting id r)
    (hs : b.SameSetup b') (ha : b.engine.store.Advances b'.engine.store) (hl : b.Listens)
    (hg : ∀ c, h.level b.engine.store c ≤ h.level b'.engine.store c) : h.Owed b' due waiting id r := by
  rcases Bench.news_or_same hs ha hl r with hn | hsame
  · exact .inl hn
  have hread : b'.readInputs r = b.readInputs r := Bench.readInputs_congr rfl hsame
  rcases ho with hn | hd | ⟨w, hw, hid, hi⟩ | hserved
  · exact .inl (hn.advance hs ha)
  · exact .inr (.inl hd)
  · exact .inr (.inr (.inl ⟨w, hw, hid, hread.trans hi⟩))
  · refine .inr (.inr (.inr fun hne x hx hp pin contact hc hin => ?_))
    rw [hs.network.contains_eq] at hin
    exact (hserved hne x (hread ▸ hx) hp pin contact hc hin).trans (hg contact)

/-- Values that whatever is closed is above may be delivered. -/
theorem Course.deliver (hc : h.Course b₀ updates b due waiting) (hl : b₀.Listens)
    {values : List (ContactId × Json)} (hs : b.SameSetup b') (he : b'.engine = b.engine.deliver values)
    (hv : ∀ p ∈ values, carrier p.2)
    (hF : ∀ F, h.Closed b₀ updates F →
      ∀ p ∈ values, b₀.engine.store.contains p.1 = true → h.element p.2 ≤ F p.1)
    (hn : b'.engine.totals.truncations = b.engine.totals.truncations) :
    h.Course b₀ updates b' due waiting ∧ h.Delivered b.engine values b'.engine := by
  have hd : h.Delivered b.engine values b'.engine := by
    rw [he] at hn ⊢
    exact hc.atRest.deliver hv hn
  have ha : b.engine.store.Advances b'.engine.store := he ▸ b.engine.advances_deliver values
  refine ⟨⟨hc.setup.trans hs, hd.atRest, hc.live, hc.fits, fun id r hr => ?_, fun p hp hin => ?_,
    fun F hclosed => ?_⟩, hd⟩
  · exact (hc.owed id r hr).advance hs ha (hc.setup.listens hl) hd.grows
  · exact (hc.updated p hp hin).trans (hd.grows p.1)
  · obtain ⟨hle, hw⟩ := hc.bounded F hclosed
    refine ⟨hd.bounded F (fun a c hac => hclosed.edges a c (hc.setup.network.feeds_iff.1 hac)) hle
      fun p hp hin => hF F hclosed p hp ?_, hw⟩
    rwa [hc.setup.network.contains_eq] at hin

/-- Once a gadget has answered inputs that it may have read, it has been served as far as these are its inputs. -/
theorem Course.fire (hc : h.Course b₀ updates b due waiting) (hl : b₀.Listens) {id : GadgetId}
    {r r' : Registration} {x : PinValues} (hr : b₀.executor.gadgets.get? id = some r)
    (hr' : b.executor.gadgets.get? id = some r') (hm : r.Monotone l carrier id) (hx : r.Fits carrier x)
    (hF : ∀ F, h.Closed b₀ updates F → h.Under r x F)
    (hn : (b.fire id r' x).1.engine.totals.truncations = b.engine.totals.truncations) :
    h.Course b₀ updates (b.fire id r' x).1 due waiting ∧
      ((b.fire id r' x).1.readInputs r = .ok x → h.Served (b.fire id r' x).1 id r) := by
  obtain ⟨r'', hr'', hgadget, hmount⟩ := hc.setup.get? hr
  rw [hr'] at hr''
  cases hr''
  obtain ⟨values, -, he, -, -, -, hvalues⟩ := b.fire_cases id r' x
  have htargets : values = r.mount.targets (r.answer id x).entries := by
    rw [hgadget, hmount] at hvalues
    exact hvalues _ (hm.pure _ _ x hx)
  have hmem {contact v} : (contact, v) ∈ values ↔
      ∃ pin, r.mount.outputs.get? pin = some contact ∧ (r.answer id x).get? pin = some v := by
    rw [htargets]
    exact Mount.mem_targets
  obtain ⟨hcourse, hd⟩ := hc.deliver hl (b.sameSetup_fire x hr') he
    (fun ⟨contact, v⟩ hp => by
      obtain ⟨pin, hpin, hv⟩ := hmem.1 hp
      exact hm.carries x pin contact v hx hpin hv)
    (fun F hclosed ⟨contact, v⟩ hp hin => by
      obtain ⟨pin, hpin, hv⟩ := hmem.1 hp
      have hle := hclosed.answered id r x hr (hF F hclosed) pin contact hpin hin
      rwa [Dict.getD, hv] at hle) hn
  refine ⟨hcourse, fun hread _ y hy _ pin contact hpin hin => ?_⟩
  rw [hread] at hy
  cases hy
  rw [Dict.getD]
  cases hv : (r.answer id x).get? pin with
  -- an output that is missing counts as null
  | none => exact h.element_null ▸ bot_le
  | some v =>
    refine hd.reached (contact, v) (hmem.2 ⟨pin, hpin, hv⟩) ?_
    rwa [(b.sameSetup_fire x hr').network.contains_eq] at hin

/-- Who is served, or has news or waits with its present inputs, need not have its turn. -/
theorem Course.dismiss {id : GadgetId} (hc : h.Course b₀ updates b (id :: due) waiting)
    (hd : ∀ r, b₀.executor.gadgets.get? id = some r → h.Owed b due waiting id r) :
    h.Course b₀ updates b due waiting := by
  refine { hc with live := fun k hk => hc.live k (List.mem_cons_of_mem id hk), owed := fun k r hr => ?_ }
  by_cases hk : k = id
  · exact hk ▸ hd r (hk ▸ hr)
  · rcases hc.owed k r hr with hn | hm | hrest
    · exact .inl hn
    · exact .inr (.inl ((List.mem_cons.1 hm).resolve_left hk))
    · exact .inr (.inr hrest)

/-- Who is served, as far as the inputs it waits with are its present ones, need not wait. -/
theorem Course.release {w : Waiting} (hc : h.Course b₀ updates b due (w :: waiting))
    (hd : ∀ r, b₀.executor.gadgets.get? w.gadget = some r → b.readInputs r = .ok w.inputs →
      h.Served b w.gadget r) : h.Course b₀ updates b due waiting := by
  refine ⟨hc.setup, hc.atRest, hc.live, fun v hv => hc.fits v (List.mem_cons_of_mem w hv), fun k r hr => ?_, hc.updated,
    fun F hF => ⟨(hc.bounded F hF).1, fun v hv => (hc.bounded F hF).2 v (List.mem_cons_of_mem w hv)⟩⟩
  rcases hc.owed k r hr with hn | hm | ⟨v, hv, hid, hi⟩ | hserved
  · exact .inl hn
  · exact .inr (.inl hm)
  · rcases List.mem_cons.1 hv with rfl | hv
    · exact .inr (.inr (.inr (hid ▸ hd r (hid ▸ hr) hi)))
    · exact .inr (.inr (.inl ⟨v, hv, hid, hi⟩))
  · exact .inr (.inr (.inr hserved))

/-- A gadget may wait with its present inputs. -/
theorem Course.await (hc : h.Course b₀ updates b due waiting) {w : Waiting} {r : Registration}
    (hr : b₀.executor.gadgets.get? w.gadget = some r) (hne : r.gadget.inputs ≠ [])
    (hi : b.readInputs r = .ok w.inputs) (hp : Gadget.allPresent r.gadget.inputs w.inputs = true) :
    h.Course b₀ updates b due (waiting ++ [w]) := by
  have hunder := hc.atRest.under hne hi hp
  have hmem {v} (hv : v ∈ waiting ++ [w]) : v ∈ waiting ∨ v = w := by simpa using hv
  refine ⟨hc.setup, hc.atRest, hc.live, fun v hv s hs => ?_, fun k s hs => ?_, hc.updated,
    fun F hF => ⟨(hc.bounded F hF).1, fun v hv s hs => ?_⟩⟩
  · rcases hmem hv with hv | rfl
    · exact hc.fits v hv s hs
    · rw [hr] at hs
      cases hs
      exact hunder.fits
  · rcases hc.owed k s hs with hn | hm | ⟨v, hv, hid, hi⟩ | hserved
    · exact .inl hn
    · exact .inr (.inl hm)
    · exact .inr (.inr (.inl ⟨v, List.mem_append_left _ hv, hid, hi⟩))
    · exact .inr (.inr (.inr hserved))
  · rcases hmem hv with hv | rfl
    · exact (hc.bounded F hF).2 v hv s hs
    · rw [hr] at hs
      cases hs
      exact hunder.mono (hc.bounded F hF).1

end Lattice.Lawful

end Patchbay
