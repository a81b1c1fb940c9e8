import Patchbay.Gadget.Arithmetic
import Patchbay.Proofs.Contact.Integers
import Patchbay.Proofs.Gadget.Isolation

/-! Counting by feedback. A gadget that answers the next integer, up to a limit, has its output connected to its own input.
Once a number is written there, each round raises both contacts by one until the limit is reached, and one round more
finds that nothing changes. -/

namespace Patchbay

/-! ## The next integer -/

theorem LatticeSpec.inWord_of_le {n : Nat} (h : n ≤ 2 ^ 53) : InWord n := by
  simp only [InWord, minInt64, maxNat64]
  omega

namespace Gadget

theorem nextInt64_clampInt64 {n : Nat} (h : n ≤ 2 ^ 53) : nextInt64 (clampInt64 n) = (n + 1 : Nat) := by
  have hclamp : clampInt64 n = n := by
    simp only [clampInt64, minInt64, maxInt64]
    omega
  have hword : Nat.pow 2 64 = 18446744073709551616 := by decide
  rw [hclamp, nextInt64, hword, Int.bmod_eq_of_le_mul_two (by omega) (by omega)]
  rfl

/-- No integer of 53 bits is lost on the way through a double. -/
theorem process_increment {limit n : Nat} (h : n ≤ 2 ^ 53) (earlier : List GadgetCall) {call : GadgetCall}
    (hin : call.inputs.get? "in" = some (.nat n)) :
    ((increment limit).process earlier call).result = .ok (.singleton "out" (.nat (min (n + 1) limit))) := by
  obtain ⟨x, hx, hi⟩ := (LatticeSpec.inWord_of_le h).exists_toDouble?
  have hnumber : numberOn call.inputs "in" = .ok x := by
    rw [numberOn, hin, Option.bind_some, Json.nat, Json.asDouble?, hx]
  have hround : x.toInt = n := by
    rw [Double.toInt_of_ofInt? hi, Double.rounded_natCast h]
  have hmin : min ((n + 1 : Nat) : Int) limit = (min (n + 1) limit : Nat) := by omega
  simp only [increment, ofFunction, hnumber, bind, Except.bind, pure, Except.pure, hround, nextInt64_clampInt64 h, hmin]
  rfl

end Gadget

/-! ## Contacts that count -/

namespace ContactStore

open LatticeSpec

variable {st : ContactStore} {id : ContactId} {m n : Nat}

/-- The contact holds null or a number up to `n`. -/
def HoldsUpTo (st : ContactStore) (id : ContactId) (n : Nat) : Prop :=
  st.Holds id .max .null ∨ ∃ m ≤ n, st.Holds id .max (.nat m)

theorem HoldsUpTo.mono (h : st.HoldsUpTo id m) (hmn : m ≤ n) : st.HoldsUpTo id n :=
  h.imp_right fun ⟨k, hk, hold⟩ => ⟨k, hk.trans hmn, hold⟩

theorem Holds.update_nat (h : st.Holds id .max (.nat m)) (hm : m ≤ 2 ^ 53) (hn : n ≤ 2 ^ 53) :
    ∃ st' changed, st.update id (.nat n) = .ok (st', changed) ∧ (changed = true ↔ m < n) := by
  obtain ⟨st', changed, hu, hchanged⟩ := h.update_int .max (inWord_of_le hm) (inWord_of_le hn)
  rw [Double.rounded_natCast hm, Double.rounded_natCast hn] at hchanged
  exact ⟨st', changed, hu, hchanged.trans (by omega)⟩

theorem HoldsUpTo.update_isOk (h : st.HoldsUpTo id n) (hn : n ≤ 2 ^ 53) : ∃ p, st.update id (.nat n) = .ok p := by
  rcases h with hnull | ⟨m, hm, hold⟩
  · exact hnull.update_ok_iff.2 ⟨_, Orders.max.join_null (inWord_of_le hn)⟩
  · obtain ⟨st', changed, hu, -⟩ := hold.update_nat (hm.trans hn) hn
    exact ⟨_, hu⟩

theorem HoldsUpTo.write (h : st.HoldsUpTo id n) (hn : n ≤ 2 ^ 53) : (st.write (id, .nat n)).Holds id .max (.nat n) := by
  rcases h with hnull | ⟨m, hm, hold⟩
  · exact hnull.write_int_null .max (inWord_of_le hn)
  · obtain ⟨hstay, hmove⟩ := hold.write_int .max (inWord_of_le (hm.trans hn)) (inWord_of_le hn)
    rw [Double.rounded_natCast hn, Double.rounded_natCast (hm.trans hn)] at hstay hmove
    rcases hm.eq_or_lt with rfl | hlt
    · exact hstay le_rfl
    · exact hmove (by omega)

/-- A number is news just if it is larger. -/
theorem Holds.changeOf_isSome_iff (h : st.Holds id .max (.nat m)) (hm : m ≤ 2 ^ 53) (hn : n ≤ 2 ^ 53) :
    (st.changeOf id (.nat n)).isSome = true ↔ m < n := by
  obtain ⟨st', changed, hu, hchanged⟩ := h.update_nat hm hn
  rw [changeOf_isSome_of_update hu, hchanged]

theorem Holds.changeOf_isSome_of_null (h : st.Holds id .max .null) (hn : n ≤ 2 ^ 53) :
    (st.changeOf id (.nat n)).isSome = true := by
  obtain ⟨c, hc, hl, hv⟩ := h
  have hj : LatticeSpec.max.toLattice.join .null (.nat n) = .ok (.nat n) := Orders.max.join_null (inWord_of_le hn)
  have he : LatticeSpec.max.toLattice.equivalent (.nat n) .null = false := Orders.max.equivalent_null n
  simp [changeOf, hc, hl, hv, hj, he]

end ContactStore

namespace Bench

/-! ## A gadget that feeds itself -/

/-- A gadget counts up to a limit and is the only one to read anything. What it answers goes to the output contact, which
passes its values on to the input contact alone; that one passes them on to none. The limits of a propagation call let
it go over a connection. -/
structure Feedback (b : Bench) (id : GadgetId) (input output : ContactId) (limit : Nat) : Prop where
  placed : ∃ r, b.executor.gadgets.get? id = some r ∧ r.gadget = .increment limit ∧
    r.mount.inputs.get? "in" = some input ∧ r.mount.outputs.get? "out" = some output
  reads : ∀ k c, b.executor.Reads k c ↔ k = id ∧ c = input
  indexed : b.executor.Indexed
  listens : b.Listens
  apart : input ≠ output
  forth : b.engine.store.downstream output = [input]
  ends : b.engine.store.downstream input = []
  deep : 1 ≤ b.engine.limits.maxDepth
  visits : 1 ≤ b.engine.limits.cycleThreshold

variable {b b' : Bench} {id : GadgetId} {input output : ContactId} {limit n : Nat}

theorem store_of_made {s₁ s₂ s₃ : ContactStore} {wire : WireId} {c : ConnectionId}
    (hi : ContactStore.empty.register input .max none = .ok s₁) (ho : s₁.register output .max none = .ok s₂)
    (hw : s₂.connect wire output input = .ok (s₃, c)) :
    input ≠ output ∧ s₃.Holds input .max .null ∧ s₃.Holds output .max .null ∧ s₃.downstream output = [input] ∧
      s₃.downstream input = [] := by
  cases hi
  obtain ⟨v, hnew, hv, rfl⟩ := ContactStore.register_cases ho
  cases hv
  have hne : input ≠ output := by
    rintro rfl
    rw [Dict.get?_insert_self] at hnew
    cases hnew
  unfold ContactStore.connect at hw
  split at hw
  · cases hw
  split at hw
  · cases hw
  cases hw
  refine ⟨hne, ?_, ⟨_, Dict.get?_insert_self .., rfl, rfl⟩, ?_, ?_⟩
  · exact ⟨_, (Dict.get?_insert_of_ne _ hne _).trans (Dict.get?_insert_self ..), rfl, rfl⟩
  · simp [ContactStore.downstream, ContactStore.listTarget, ContactStore.empty, Dict.getD]
  · simp [ContactStore.downstream, ContactStore.empty, Dict.getD, Dict.get?_insert, hne]

theorem executor_of_made {x : Executor} {number : Nat} {gadget : Gadget} {mount : Mount}
    (hx : Executor.register { number } id gadget mount = .ok x) :
    x.gadgets.get? id = some { gadget, mount } ∧ (∀ k c, x.Reads k c ↔ k = id ∧ c ∈ mount.inputs.values) ∧
      x.subscription = none := by
  obtain ⟨-, -, readers, rfl⟩ := Executor.register_cases hx
  refine ⟨Dict.get?_insert_self .., fun k c => ?_, rfl⟩
  simp only [Executor.Reads, Dict.get?_insert]
  by_cases hk : k = id
  · simp [hk]
  · simp [hk]

/-- Two contacts, a connection and a gadget put in place one after the other make such a bench, whatever their names. -/
theorem feedback_of_made {s₁ s₂ s₃ : ContactStore} {x : Executor} {wire : WireId} {c : ConnectionId} {number : Nat}
    {limits : PropagationLimits} (hi : ContactStore.empty.register input .max none = .ok s₁)
    (ho : s₁.register output .max none = .ok s₂) (hw : s₂.connect wire output input = .ok (s₃, c))
    (hx : Executor.register { number } id (.increment limit)
      { inputs := .singleton "in" input, outputs := .singleton "out" output } = .ok x)
    (hd : 1 ≤ limits.maxDepth) (ht : 1 ≤ limits.cycleThreshold) :
    let b : Bench := { engine := { store := (x.subscribe s₃).2, limits }, executor := (x.subscribe s₃).1 }
    b.Feedback id input output limit ∧ b.engine.store.Holds input .max .null ∧
      b.engine.store.Holds output .max .null := by
  intro b
  obtain ⟨hne, hin, hout, hforth, hends⟩ := store_of_made hi ho hw
  have hindexed : b.executor.Indexed := (((Executor.Built.new number).register hx).subscribe s₃).indexed
  obtain ⟨hg, hreads, hnone⟩ := executor_of_made hx
  have hstore : b.engine.store = (s₃.subscribe x.listener).1 := by
    simp only [b, Executor.subscribe, hnone]
  have hexecutor : b.executor = { x with subscription := some (s₃.subscribe x.listener).2 } := by
    simp only [b, Executor.subscribe, hnone]
  have hvalues : (Dict.singleton "in" input).values = [input] := rfl
  simp only [hvalues, List.mem_singleton] at hreads
  refine ⟨⟨?_, ?_, hindexed, ?_, hne, ?_, ?_, hd, ht⟩, ?_, ?_⟩
  · rw [hexecutor]
    exact ⟨_, hg, rfl, rfl, rfl⟩
  · rw [hexecutor]
    exact hreads
  · rw [Listens, hstore, hexecutor]
    exact ⟨_, List.mem_append_right _ List.mem_cons_self⟩
  all_goals rw [hstore]
  · exact hforth
  · exact hends
  · exact hin
  · exact hout

/-! ## One round -/

/-- Both contacts are for the greatest number, and hold this one. -/
structure Shows (b : Bench) (input output : ContactId) (n : Nat) : Prop where
  input : b.engine.store.Holds input .max (.nat n)
  output : b.engine.store.Holds output .max (.nat n)

theorem Shows.of_contacts (h : b.Shows input output n)
    (hc : b'.engine.store.contacts = b.engine.store.contacts) : b'.Shows input output n where
  input := by
    rw [ContactStore.Holds, hc]
    exact h.input
  output := by
    rw [ContactStore.Holds, hc]
    exact h.output

theorem Listens.copies_ne_zero (h : b.Listens) : b.engine.store.copies b.executor.listener ≠ 0 := by
  obtain ⟨n, hn⟩ := h
  exact ContactStore.copies_ne_zero hn

namespace Feedback

theorem sameSetup (h : b.Feedback id input output limit) (hs : b.SameSetup b') :
    b'.Feedback id input output limit where
  placed := by
    obtain ⟨r, hr, hg, hin, hout⟩ := h.placed
    obtain ⟨r', hr', hg', hm'⟩ := hs.get? hr
    exact ⟨r', hr', hg'.trans hg, hm' ▸ hin, hm' ▸ hout⟩
  reads k c := hs.reads_iff.trans (h.reads k c)
  indexed := hs.indexed h.indexed
  listens := hs.listens h.listens
  apart := h.apart
  forth := (hs.network.downstream_eq output).trans h.forth
  ends := (hs.network.downstream_eq input).trans h.ends
  deep := hs.limits_eq ▸ h.deep
  visits := hs.limits_eq ▸ h.visits

theorem hasPending_iff (h : b.Feedback id input output limit) :
    b.hasPending = true ↔ ∃ r ∈ b.engine.store.inbox b.executor.listener, r.contact = input := by
  rw [hasPending, Executor.hasPending_iff h.indexed]
  simp [h.reads, Executor.contains_dirty_iff_inbox]

theorem triggered_eq (h : b.Feedback id input output limit) (hp : b.hasPending = true) : b.triggered.2 = [id] := by
  have hmem : ∀ k, k ∈ b.triggered.2 ↔ k ∈ [id] := by
    intro k
    rw [hasPending, Executor.hasPending_iff h.indexed] at hp
    obtain ⟨c, k', hd, hr⟩ := hp
    obtain ⟨rfl, rfl⟩ := (h.reads k' c).1 hr
    refine Executor.mem_readersOf.trans ?_
    simp only [h.indexed.mem_iff, h.reads, List.mem_singleton]
    constructor
    · rintro ⟨_, -, hk, -⟩
      exact hk
    · exact fun hk => ⟨c, hd, hk, rfl⟩
  exact List.perm_singleton.1 ((List.perm_ext_iff_of_nodup (Dict.nodup_keys _) (List.nodup_singleton id)).2 hmem)

theorem snapshot (h : b.Feedback id input output limit) (hi : b.engine.store.Holds input .max (.nat n)) :
    ∃ r inputs, b.snapshot id = .ok (r, inputs) ∧ r.gadget = .increment limit ∧
      r.mount.outputs.get? "out" = some output ∧ inputs.get? "in" = some (.nat n) := by
  obtain ⟨r, hr, hg, hin, hout⟩ := h.placed
  have hpin : b.pinValue r "in" = .ok (.nat n) := by
    rw [pinValue, hin]
    exact hi.value
  have hpins : ∀ pin ∈ r.gadget.inputs, ∃ v, b.pinValue r pin = .ok v := by
    intro pin hp
    rw [hg] at hp
    exact ⟨_, List.mem_singleton.1 hp ▸ hpin⟩
  obtain ⟨inputs, hread⟩ := readInputs_isOk hpins
  obtain ⟨v, hv, hpin'⟩ := (get?_readInputs hread "in").1 (hg ▸ List.mem_singleton_self "in")
  cases hpin.symm.trans hpin'
  exact ⟨r, inputs, snapshot_eq_ok.2 ⟨hr, hread⟩, hg, hout, hv⟩

theorem store_deliver (h : b.Feedback id input output limit) (ho : b.engine.store.HoldsUpTo output n)
    (hn : n ≤ 2 ^ 53) : (b.engine.deliver [(output, .nat n)]).store =
      (b.engine.store.write (output, .nat n)).write (input, .nat n) := by
  obtain ⟨p, hu⟩ := ho.update_isOk hn
  obtain ⟨⟨e, stats⟩, hp⟩ := Engine.exists_propagate hu
  simp only [Engine.deliver, hp]
  exact Engine.store_of_propagate_link hp h.deep h.visits h.forth h.ends (ho.write hn).value rfl

/-- In its turn the gadget answers at once, and its answer is written to both contacts. -/
theorem runRound (h : b.Feedback id input output limit) (hi : b.engine.store.Holds input .max (.nat n))
    (ho : b.engine.store.HoldsUpTo output (min (n + 1) limit)) (hn : n ≤ 2 ^ 53) (hlimit : limit ≤ 2 ^ 53) :
    (runRound byDelay b [id]).1.engine.store =
      (b.engine.store.write (output, .nat (min (n + 1) limit))).write (input, .nat (min (n + 1) limit)) := by
  obtain ⟨r, inputs, hs, hg, hout, hin⟩ := h.snapshot hi
  have hactive : r.gadget.activation inputs = true := by
    rw [hg]
    simp only [Gadget.increment, Gadget.ofFunction, Gadget.allPresent, List.all_cons, hin]
    rfl
  have hdelay : r.gadget.delay = 0 := by
    rw [hg]
    rfl
  have hround := runRound_singleton byDelay List.mergeSort_nil hs hactive hdelay
  obtain ⟨values, -, he, -, -, -, hvalues⟩ := b.fire_cases id r inputs
  rw [hg] at hvalues
  have htargets := hvalues _ (Gadget.process_increment hn r.calls hin)
  have hsole : r.mount.targets (Dict.singleton "out" (.nat (min (n + 1) limit))).entries =
      [(output, .nat (min (n + 1) limit))] := by
    simp [Mount.targets, Dict.singleton, hout]
  rw [hround, he, htargets, hsole]
  exact h.store_deliver ho (by omega)

/-- Where nothing is left to be heard, of a write to each of the contacts the one to the input is heard, if it is news. -/
theorem hasPending_of_writes (h : b.Feedback id input output limit) (hs : b.SameSetup b') (hquiet : b.Unstirred)
    {v w : Json} (hstore : b'.engine.store = (b.engine.store.write (output, v)).write (input, w)) :
    b'.hasPending = true ↔ ((b.engine.store.write (output, v)).changeOf input w).isSome = true := by
  have hempty : b.engine.store.inbox b.executor.listener = [] := by
    rw [ContactStore.inbox, lettersTo_of_unstirred hquiet, List.map_nil]
  have hcopies := h.listens.copies_ne_zero
  have hcopies' := (b.engine.store.copies_write b.executor.listener (output, v)).trans_ne hcopies
  rw [(h.sameSetup hs).hasPending_iff, hs.listener_eq, hstore, ContactStore.exists_inbox_write hcopies',
    ContactStore.exists_inbox_write hcopies, hempty]
  simp only [h.apart.symm, List.not_mem_nil, false_and, exists_false, or_false, false_or, true_and]

/-- A round takes both contacts to the next number, or leaves them at the limit with nothing to be heard. -/
theorem round (h : b.Feedback id input output limit) (hi : b.engine.store.Holds input .max (.nat n))
    (ho : b.engine.store.HoldsUpTo output n) (hn : n ≤ limit) (hlimit : limit ≤ 2 ^ 53) :
    let b' := (Bench.runRound byDelay b.triggered.1 [id]).1
    b'.Feedback id input output limit ∧ b'.Shows input output (min (n + 1) limit) ∧ (b'.hasPending = true ↔ n < limit) := by
  intro b'
  let c := b.triggered.1
  have hc : c.Feedback id input output limit := h.sameSetup b.sameSetup_triggered
  have hset : c.SameSetup b' := sameSetup_runRound byDelay c [id]
  have hb' : b'.Feedback id input output limit := hc.sameSetup hset
  have hci : c.engine.store.Holds input .max (.nat n) := hi
  have hle : min (n + 1) limit ≤ 2 ^ 53 := by omega
  have hco : c.engine.store.HoldsUpTo output (min (n + 1) limit) := ho.mono (by omega)
  have hstore : b'.engine.store = _ := hc.runRound hci hco (hn.trans hlimit) hlimit
  -- the answer meets the old number at the input
  have hmeet := hci.write_of_ne (p := (output, .nat (min (n + 1) limit))) h.apart.symm
  refine ⟨hb', ⟨?_, ?_⟩, ?_⟩
  · rw [hstore]
    exact ContactStore.HoldsUpTo.write (.inr ⟨n, by omega, hmeet⟩) hle
  · rw [hstore]
    exact (hco.write hle).write_of_ne h.apart
  · rw [hc.hasPending_of_writes hset b.unstirred_triggered hstore, hmeet.changeOf_isSome_iff (hn.trans hlimit) hle]
    omega

/-! ## Rounds -/

theorem settle_succ (h : b.Feedback id input output limit) (hp : b.hasPending = true) (k : Nat) :
    let b' := (Bench.runRound byDelay b.triggered.1 [id]).1
    (b.settle (k + 1)).1 = (b'.settle k).1 ∧ (b.settle (k + 1)).2.rounds = (b'.settle k).2.rounds + 1 ∧
      (b.settle (k + 1)).2.quiescent = (b'.settle k).2.quiescent := by
  simp only [settle, settleWith, h.triggered_eq hp]
  exact ⟨rfl, rfl, rfl⟩

theorem settle (h : b.Feedback id input output limit) (hp : b.hasPending = true)
    (hi : b.engine.store.Holds input .max (.nat n)) (ho : b.engine.store.HoldsUpTo output n) (hn : n ≤ limit)
    (hlimit : limit ≤ 2 ^ 53) (k : Nat) :
    (b.settle (k + 1)).2.rounds = min (k + 1) (limit - n + 1) ∧
      ((b.settle (k + 1)).2.quiescent = true ↔ limit ≤ n + k) ∧
      (b.settle (k + 1)).1.Shows input output (min (n + k + 1) limit) := by
  induction k generalizing b n with
  | zero =>
    obtain ⟨hb, hrounds, hquiescent⟩ := h.settle_succ hp 0
    obtain ⟨-, hshows, hpending⟩ := h.round hi ho hn hlimit
    rw [hb, hrounds, hquiescent]
    refine ⟨by simp [Bench.settle, settleWith], ?_, hshows⟩
    show (!Bench.hasPending _) = true ↔ _
    rw [Bool.not_eq_true', ← Bool.not_eq_true, hpending, Nat.not_lt]
    rfl
  | succ k ih =>
    obtain ⟨hb, hrounds, hquiescent⟩ := h.settle_succ hp (k + 1)
    obtain ⟨h', hshows, hpending⟩ := h.round hi ho hn hlimit
    rw [hb, hrounds, hquiescent]
    rcases hn.lt_or_eq with hlt | rfl
    · have hnext : min (n + 1) limit = n + 1 := Nat.min_eq_left hlt
      rw [hnext] at hshows
      obtain ⟨hr, hq, hs⟩ := ih h' (hpending.2 hlt) hshows.input (.inr ⟨n + 1, le_rfl, hshows.output⟩) hlt
      have hplus : n + 1 + k = n + (k + 1) := by omega
      rw [hplus] at hq hs
      exact ⟨by omega, hq, hs⟩
    · -- at the limit the rounds are over
      have hidle : Bench.hasPending _ = false := Bool.eq_false_iff.2 fun ht => (hpending.1 ht).false
      obtain ⟨hr, hq, hcontacts⟩ := settle_of_idle h'.indexed hidle (k + 1)
      have hend : min (n + (k + 1) + 1) n = min (n + 1) n := by omega
      rw [hend]
      exact ⟨by omega, iff_of_true hq (by omega), hshows.of_contacts hcontacts⟩

/-- The number that is written to the input is heard of. -/
theorem propagate (h : b.Feedback id input output limit) (hi : b.engine.store.Holds input .max .null)
    (ho : b.engine.store.Holds output .max .null) (hn : n ≤ 2 ^ 53) :
    ∃ e stats, b.engine.propagate input (.nat n) = .ok (e, stats) ∧
      ({ b with engine := e } : Bench).Feedback id input output limit ∧
      ({ b with engine := e } : Bench).hasPending = true ∧ e.store.Holds input .max (.nat n) ∧
      e.store.HoldsUpTo output n := by
  obtain ⟨⟨st, changed⟩, hu⟩ := ContactStore.HoldsUpTo.update_isOk (.inl hi) hn
  obtain ⟨⟨e, stats⟩, hp⟩ := Engine.exists_propagate hu
  have hset : b.SameSetup { b with engine := e } :=
    .of_engine rfl (Engine.advances_propagate hp).toSameNetwork (Engine.limits_propagate hp)
  have hstore : e.store = b.engine.store.write (input, .nat n) := by
    refine Engine.store_of_propagate hp (.inr ?_)
    rw [ContactStore.write_of_update hu, (ContactStore.Advances.of_update hu).toSameNetwork.downstream_eq, h.ends]
  refine ⟨e, stats, hp, h.sameSetup hset, ?_, ?_, ?_⟩
  · rw [(h.sameSetup hset).hasPending_iff, hset.listener_eq]
    simp only [hstore, ContactStore.exists_inbox_write h.listens.copies_ne_zero, hi.changeOf_isSome_of_null hn, and_self, or_true]
  · rw [hstore]
    exact ContactStore.HoldsUpTo.write (.inl hi) hn
  · rw [hstore]
    exact .inl (ho.write_of_ne h.apart)

end Feedback

/-- A gadget for the next integer up to a limit, its output contact connected to its input contact, counts. Once a number
is written to the input, it takes a round for each integer from that number to the limit; then nothing is left to be
heard, and both contacts hold the limit. Fewer rounds take them that far on, and leave something to be heard. -/
theorem feedback_counts (h : b.Feedback id input output limit) (hi : b.engine.store.Holds input .max .null)
    (ho : b.engine.store.Holds output .max .null) (hn : n ≤ limit) (hlimit : limit ≤ 2 ^ 53) (k : Nat) :
    ∃ e stats, b.engine.propagate input (.nat n) = .ok (e, stats) ∧
      let (b', report) := ({ b with engine := e } : Bench).settle k
      (limit - n + 1 ≤ k → report.rounds = limit - n + 1 ∧ report.quiescent = true ∧
        b'.engine.store.value input = .ok (.nat limit) ∧ b'.engine.store.value output = .ok (.nat limit)) ∧
      (1 ≤ k → k ≤ limit - n → report.rounds = k ∧ report.quiescent = false ∧
        b'.engine.store.value input = .ok (.nat (n + k)) ∧ b'.engine.store.value output = .ok (.nat (n + k))) := by
  obtain ⟨e, stats, hp, h', hpending, hi', ho'⟩ := h.propagate hi ho (hn.trans hlimit)
  refine ⟨e, stats, hp, ?_⟩
  cases k with
  | zero => exact ⟨nofun, nofun⟩
  | succ k =>
    obtain ⟨hrounds, hquiescent, hshows⟩ := h'.settle hpending hi' ho' hn hlimit k
    generalize ({ b with engine := e } : Bench).settle (k + 1) = p at hrounds hquiescent hshows
    obtain ⟨b', report⟩ := p
    refine ⟨fun hk => ?_, fun _ hk => ?_⟩
    · have hend : min (n + k + 1) limit = limit := by omega
      rw [hend] at hshows
      exact ⟨hrounds.trans (by omega), hquiescent.2 (by omega), hshows.input.value, hshows.output.value⟩
    · have hend : min (n + k + 1) limit = n + (k + 1) := by omega
      rw [hend] at hshows
      have hmore : ¬limit ≤ n + k := by omega
      exact ⟨hrounds.trans (by omega), Bool.eq_false_iff.2 (mt hquiescent.1 hmore), hshows.input.value,
        hshows.output.value⟩

/-- From nought to five in six rounds; after two of them, two is reached and there is more to be heard. -/
theorem feedback_counts_five :
    ∃ b e : Bench, b.Feedback "inc" "in" "out" 5 ∧ (b.engine.propagate "in" (.nat 0)).map (·.1) = .ok e.engine ∧
      (e.settle 6).2.rounds = 6 ∧ (e.settle 6).2.quiescent = true ∧
      (e.settle 6).1.engine.store.value "out" = .ok (.nat 5) ∧
      (e.settle 2).2.rounds = 2 ∧ (e.settle 2).2.quiescent = false ∧
      (e.settle 2).1.engine.store.value "out" = .ok (.nat 2) := by
  obtain ⟨b, h, hi, ho⟩ : ∃ b : Bench, b.Feedback "inc" "in" "out" 5 ∧ b.engine.store.Holds "in" .max .null ∧
      b.engine.store.Holds "out" .max .null :=
    ⟨_, feedback_of_made (rfl : ContactStore.empty.register "in" .max none = .ok _)
      (rfl : ContactStore.register _ "out" .max none = .ok _)
      (rfl : ContactStore.connect _ "feedback" "out" "in" = .ok (_, "c1"))
      (rfl : Executor.register { number := 0 } "inc" (.increment (5 : Nat))
        { inputs := .singleton "in" "in", outputs := .singleton "out" "out" } = .ok _)
      (by decide : 1 ≤ ({} : PropagationLimits).maxDepth) (by decide)⟩
  obtain ⟨e, stats, hp, hfull⟩ := feedback_counts h hi ho (Nat.zero_le 5) (by decide) 6
  obtain ⟨e', stats', hp', hpart⟩ := feedback_counts h hi ho (Nat.zero_le 5) (by decide) 2
  cases hp.symm.trans hp'
  obtain ⟨hr, hq, -, hv⟩ := hfull.1 (by decide)
  obtain ⟨hr', hq', -, hv'⟩ := hpart.2 (by decide) (by decide)
  refine ⟨b, { b with engine := e }, h, ?_, hr, hq, hv, hr', hq', hv'⟩
  rw [hp]
  rfl

end Bench

end Patchbay
