import Patchbay.Proofs.Contact.Built
import Patchbay.Proofs.Contact.Call
import Patchbay.Lattice.Builtin
import Mathlib.Data.List.Induction
import Mathlib.Data.List.Permutation

/-! The order in which connections are made. Whatever calls a store has answered, the list of a contact holds the
connections that leave it in that order, and so does what the contact is said to feed. -/

namespace Patchbay

namespace ContactStore

variable {s s' : ContactStore} {c : ContactId} {id : ConnectionId}

/-- The identities of the connections that have been made, in order. -/
def issued (s : ContactStore) : List ConnectionId := (List.range' 1 s.lastConnection).map connectionId

theorem issued_connect (s : ContactStore) (connections : Dict Connection) (outgoing : Dict (List ConnectionId)) :
    issued { s with lastConnection := s.lastConnection + 1, connections, outgoing } =
      s.issued ++ [connectionId (s.lastConnection + 1)] := by
  rw [issued, issued, List.range'_concat, List.map_append, List.map_singleton, Nat.one_mul, Nat.add_comm 1]

theorem nodup_issued (s : ContactStore) : s.issued.Nodup :=
  List.Nodup.map (fun _ _ => connectionId_inj) List.nodup_range'

/-- The connection is there and leaves the contact. -/
def leaves (s : ContactStore) (c : ContactId) (id : ConnectionId) : Bool :=
  (s.connections.get? id).any fun x => x.source == c

theorem connection_eq_ok {x : Connection} : s.connection id = .ok x ↔ s.connections.get? id = some x := by
  unfold connection
  split <;> simp_all

/-- Where a connection leads, if it is there and active. -/
def liveTarget? (s : ContactStore) (id : ConnectionId) : Option ContactId :=
  (s.connections.get? id).bind fun x => if x.active then some x.target else none

theorem leaves_iff : s.leaves c id = true ↔ ∃ x, s.connections.get? id = some x ∧ x.source = c := by
  simp only [leaves, Option.any_eq_true, beq_iff_eq]

/-! ## Lists of connections -/

/-- The list of each contact holds the connections that leave it, in the order in which they were made. -/
def InOrder (s : ContactStore) : Prop := ∀ c, s.outgoing.getD c [] = s.issued.filter (s.leaves c)

theorem InOrder.congr (h : s.InOrder) (hc : s'.connections = s.connections) (ho : s'.outgoing = s.outgoing)
    (hl : s'.lastConnection = s.lastConnection) : s'.InOrder := by
  intro c
  have hleaves : s'.leaves c = s.leaves c := by
    funext id
    rw [leaves, leaves, hc]
  rw [ho, issued, hl, hleaves]
  exact h c

theorem InOrder.of_mem (h : s.InOrder) (hid : id ∈ s.outgoing.getD c []) :
    id ∈ s.issued ∧ ∃ x, s.connections.get? id = some x ∧ x.source = c := by
  rw [h c, List.mem_filter] at hid
  exact ⟨hid.1, leaves_iff.1 hid.2⟩

theorem InOrder.dropConnection (h : s.InOrder) (id : ConnectionId) : (s.dropConnection id).InOrder := by
  intro c
  have hissued : (s.dropConnection id).issued = s.issued := by
    rw [issued, issued, lastConnection_dropConnection]
  have hleaves : (s.dropConnection id).leaves c = fun k => s.leaves c k && decide (k ≠ id) := by
    funext k
    rw [leaves, leaves, connections_dropConnection, Dict.get?_erase]
    by_cases hk : k = id <;> simp [hk]
  have hlist : (s.dropConnection id).outgoing.getD c [] = (s.outgoing.getD c []).filter (· ≠ id) := by
    unfold ContactStore.dropConnection
    split
    · next hnone =>
      refine (List.filter_eq_self.2 fun k hk => decide_eq_true ?_).symm
      rintro rfl
      obtain ⟨-, x, hx, -⟩ := h.of_mem hk
      cases hnone.symm.trans hx
    · next x hx =>
      simp only [Dict.getD, Dict.get?_modify]
      split
      · cases s.outgoing.get? c <;> rfl
      · -- the connection stands in the list of its source alone
        next hc =>
        refine (List.filter_eq_self.2 fun k hk => decide_eq_true ?_).symm
        rintro rfl
        obtain ⟨-, y, hy, hs⟩ := h.of_mem hk
        cases hx.symm.trans hy
        exact hc hs.symm
  rw [hlist, h c, List.filter_filter, hissued, hleaves]
  simp only [Bool.and_comm]

theorem InOrder.foldl_dropConnection (h : s.InOrder) (ids : List ConnectionId) :
    (ids.foldl ContactStore.dropConnection s).InOrder :=
  foldl_keeps (fun _ id _ hs => hs.dropConnection id) h

theorem InOrder.remove (h : s.InOrder) (hw : s.Wired) {id : ContactId} {c : Contact}
    (hr : s.remove id = .ok (s', c)) : s'.InOrder := by
  have hw' := hw.remove hr
  obtain ⟨_, -, hr⟩ := ok_of_bind hr
  cases hr
  set t := List.foldl ContactStore.dropConnection { s with contacts := s.contacts.erase id } _
  have ht : t.InOrder := InOrder.foldl_dropConnection (s := { s with contacts := s.contacts.erase id }) h _
  intro c
  rw [Dict.getD, Dict.get?_erase]
  split
  · -- nothing leaves the contact that is gone
    next hc =>
    refine (List.filter_eq_nil_iff.2 fun k _ hk => ?_).symm
    obtain ⟨x, hx, rfl⟩ := leaves_iff.1 hk
    have hin : t.contacts.contains x.source = true := (hw'.ends k x hx).1
    rw [contacts_foldl_dropConnection, Dict.contains_erase] at hin
    exact hin.1 hc
  · exact ht c

theorem InOrder.connect (h : s.InOrder) {wire : WireId} {source target : ContactId}
    (hc : s.connect wire source target = .ok (s', id)) : s'.InOrder := by
  unfold ContactStore.connect at hc
  split at hc
  · cases hc
  split at hc
  · cases hc
  cases hc
  have hfresh : connectionId (s.lastConnection + 1) ∉ s.issued := by
    intro hm
    obtain ⟨n, hn, he⟩ := List.mem_map.1 hm
    have hlast := (List.mem_range'_1.1 hn).2
    have := connectionId_inj he
    omega
  set new := connectionId (s.lastConnection + 1)
  set x : Connection := { id := new, wire, source, target }
  have hold (c : ContactId) :
      (s.issued.filter fun k => ((s.connections.insert new x).get? k).any fun y => y.source == c) =
        s.issued.filter (s.leaves c) := by
    refine List.filter_congr fun k hk => ?_
    have hne : k ≠ new := fun he => hfresh (he ▸ hk)
    rw [leaves, Dict.get?_insert_of_ne _ hne]
  intro c
  rw [issued_connect, List.filter_append]
  refine Eq.trans ?_ (congrArg (· ++ _) (hold c)).symm
  rw [← h c, Dict.getD, Dict.getD, Dict.get?_insert]
  split
  · next hc => simp [leaves, hc, x, Dict.getD, new]
  · next hc =>
    have hne : source ≠ c := fun he => hc he.symm
    simp [leaves, hne, x, new, Dict.getD]

theorem InOrder.setActive (h : s.InOrder) {active : Bool} (ha : s.setActive id active = .ok s') : s'.InOrder := by
  obtain ⟨x, hx, ha⟩ := ok_of_bind ha
  cases ha
  have hx : s.connections.get? id = some x := connection_eq_ok.1 hx
  intro c
  have hleaves : leaves { s with connections := s.connections.insert id { x with active } } c = s.leaves c := by
    funext k
    rw [leaves, leaves, Dict.get?_insert]
    split
    · next hk => rw [hk, hx, Option.any_some, Option.any_some]
    · rfl
  rw [hleaves]
  exact h c

/-- Whatever operations have built a store, its lists are in order. -/
theorem Built.inOrder (h : s.Built) : s.InOrder := by
  induction h with
  | empty => exact fun c => rfl
  | register _ hr ih =>
    obtain ⟨_, -, -, rfl⟩ := register_cases hr
    exact ih
  | update _ hu ih =>
    have hadv := Advances.of_update hu
    exact ih.congr hadv.connections_eq hadv.outgoing_eq hadv.lastConnection_eq
  | remove hb hr ih => exact ih.remove hb.wired hr
  | connect hb hc ih => exact ih.connect hc
  | disconnect _ hd ih =>
    obtain ⟨x, -, hd⟩ := ok_of_bind hd
    cases hd
    exact ih.dropConnection _
  | setActive _ ha ih => exact ih.setActive ha
  | removeWire wire _ ih => exact ih.foldl_dropConnection _
  | subscribe _ _ ih => exact ih
  | unsubscribe _ _ ih => exact ih
  | takeMail _ _ ih => exact ih

/-! ## What a contact feeds -/

theorem eraseDups_concat (l : List String) (a : String) :
    (l ++ [a]).eraseDups = if a ∈ l then l.eraseDups else l.eraseDups ++ [a] := by
  rw [List.eraseDups_append]
  split
  · next ha =>
    have hgone : [a].removeAll l = [] := by simpa [List.removeAll] using ha
    rw [hgone, List.eraseDups_nil, List.append_nil]
  · next ha =>
    have hnew : [a].removeAll l = [a] := by simpa [List.removeAll] using ha
    rw [hnew]
    rfl

/-- The targets of connections are listed in the order of the connections, each where it occurs first. -/
theorem foldl_listTarget (s : ContactStore) (ids : List ConnectionId) :
    ids.foldl s.listTarget [] = (ids.filterMap s.liveTarget?).eraseDups := by
  induction ids using List.reverseRecOn with
  | nil => rfl
  | append_singleton ids id ih =>
    rw [List.foldl_append, ih, List.foldl_cons, List.foldl_nil, List.filterMap_append, listTarget]
    cases hx : s.connections.get? id with
    | none => simp [liveTarget?, hx]
    | some x =>
      by_cases ha : x.active = true
      · have hlast : [id].filterMap s.liveTarget? = [x.target] := by simp [liveTarget?, hx, ha]
        rw [hlast, eraseDups_concat]
        simp only [ha, Bool.true_and, Bool.not_eq_true', ← Bool.not_eq_true, List.contains_iff_mem, List.mem_eraseDups,
          ite_not]
      · simp [liveTarget?, hx, ha]

end ContactStore

/-! ## Runs -/

namespace StoreCall

/-- The connection that a call makes, if it makes one. -/
def makes (s : ContactStore) : StoreCall → Option ConnectionId
  | connect wire source target => (s.connect wire source target).toOption.map (·.2)
  | _ => none

variable {s s' : ContactStore} {call : StoreCall}

theorem built_perform (hb : s.Built) (h : call.perform s = .ok s') : s'.Built := by
  cases call with
  | register => exact hb.register h
  | update =>
    obtain ⟨p, hp, rfl⟩ := ok_of_map h
    exact hb.update hp
  | remove =>
    obtain ⟨p, hp, rfl⟩ := ok_of_map h
    exact hb.remove hp
  | connect =>
    obtain ⟨p, hp, rfl⟩ := ok_of_map h
    exact hb.connect hp
  | disconnect =>
    obtain ⟨p, hp, rfl⟩ := ok_of_map h
    exact hb.disconnect hp
  | setActive => exact hb.setActive h
  | removeWire wire =>
    cases h
    exact hb.removeWire wire
  | subscribe l =>
    cases h
    exact hb.subscribe l
  | unsubscribe n =>
    cases h
    exact hb.unsubscribe n
  | takeMail recipient =>
    cases h
    exact hb.takeMail recipient

theorem makes_of_refused {cause : ContactError} (h : call.perform s = .error cause) : call.makes s = none := by
  cases call with
  | connect wire source target => rw [makes, error_of_map h, Except.toOption, Option.map_none]
  | _ => rfl

/-- A call adds what it makes to the connections that have been made. -/
theorem issued_perform (h : call.perform s = .ok s') : s'.issued = s.issued ++ (call.makes s).toList := by
  have hsame (hm : call.makes s = none) (hl : s'.lastConnection = s.lastConnection) :
      s'.issued = s.issued ++ (call.makes s).toList := by
    rw [hm, Option.toList_none, List.append_nil, ContactStore.issued, hl, ContactStore.issued]
  cases call with
  | register =>
    obtain ⟨_, -, -, rfl⟩ := ContactStore.register_cases h
    exact hsame rfl rfl
  | update =>
    obtain ⟨p, hp, rfl⟩ := ok_of_map h
    exact hsame rfl (ContactStore.Advances.of_update hp).lastConnection_eq
  | remove =>
    obtain ⟨p, hp, rfl⟩ := ok_of_map h
    obtain ⟨_, -, hp⟩ := ok_of_bind hp
    cases hp
    exact hsame rfl (ContactStore.lastConnection_foldl_dropConnection ..)
  | connect wire source target =>
    obtain ⟨⟨t, id⟩, hp, rfl⟩ := ok_of_map h
    rw [makes, hp, Except.toOption, Option.map_some, Option.toList_some]
    unfold ContactStore.connect at hp
    split at hp
    · cases hp
    split at hp
    · cases hp
    cases hp
    exact s.issued_connect _ _
  | disconnect =>
    obtain ⟨p, hp, rfl⟩ := ok_of_map h
    obtain ⟨_, -, hp⟩ := ok_of_bind hp
    cases hp
    exact hsame rfl (ContactStore.lastConnection_dropConnection ..)
  | setActive =>
    obtain ⟨_, -, hp⟩ := ok_of_bind h
    cases hp
    exact hsame rfl rfl
  | removeWire =>
    cases h
    exact hsame rfl (ContactStore.lastConnection_foldl_dropConnection ..)
  | subscribe =>
    cases h
    exact hsame rfl rfl
  | unsubscribe =>
    cases h
    exact hsame rfl rfl
  | takeMail =>
    cases h
    exact hsame rfl rfl

end StoreCall

namespace ContactStore

/-- A call is made. One that is refused has no effect. -/
def occur (s : ContactStore) (call : StoreCall) : ContactStore :=
  match call.perform s with
  | .ok s' => s'
  | .error _ => s

def run : ContactStore → List StoreCall → ContactStore
  | s, [] => s
  | s, call :: rest => (s.occur call).run rest

/-- The connections that the calls of a run make, in order. -/
def made : ContactStore → List StoreCall → List ConnectionId
  | _, [] => []
  | s, call :: rest => (call.makes s).toList ++ (s.occur call).made rest

variable {s : ContactStore} {call : StoreCall}

theorem Built.occur (h : s.Built) (call : StoreCall) : (s.occur call).Built := by
  unfold ContactStore.occur
  split
  · next hp => exact StoreCall.built_perform h hp
  · exact h

theorem Built.run (h : s.Built) (calls : List StoreCall) : (s.run calls).Built := by
  induction calls generalizing s with
  | nil => exact h
  | cons call rest ih => exact ih (h.occur call)

theorem issued_occur (s : ContactStore) (call : StoreCall) :
    (s.occur call).issued = s.issued ++ (call.makes s).toList := by
  unfold occur
  split
  · next hp => exact StoreCall.issued_perform hp
  · next hp => rw [StoreCall.makes_of_refused hp, Option.toList_none, List.append_nil]

theorem issued_run (s : ContactStore) (calls : List StoreCall) : (s.run calls).issued = s.issued ++ s.made calls := by
  induction calls generalizing s with
  | nil => exact (List.append_nil _).symm
  | cons call rest ih => rw [run, ih, issued_occur, List.append_assoc, made]

theorem run_append (s : ContactStore) (as bs : List StoreCall) : s.run (as ++ bs) = (s.run as).run bs := by
  induction as generalizing s with
  | nil => rfl
  | cons call rest ih => exact ih _

theorem made_append (s : ContactStore) (as bs : List StoreCall) :
    s.made (as ++ bs) = s.made as ++ (s.run as).made bs := by
  induction as generalizing s with
  | nil => rfl
  | cons call rest ih => rw [List.cons_append, made, ih, made, run, List.append_assoc]

/-- Whatever calls a store answers, its connections join contacts that are there, each is one of those that were made,
and no identity was given out twice. The list of a contact holds the connections that leave it in the order in which
they were made, and what the contact feeds are the targets of the active ones in that order, each where it occurs first.
A call that is refused can be left out of the run. -/
theorem run_topology (calls : List StoreCall) :
    let s := empty.run calls
    let made := empty.made calls
    (∀ id x, s.connections.get? id = some x →
      x.id = id ∧ s.contains x.source = true ∧ s.contains x.target = true ∧ id ∈ made) ∧
    made.Nodup ∧
    (∀ c, s.outgoing.getD c [] = made.filter (s.leaves c)) ∧
    (∀ c, s.downstream c = ((made.filter (s.leaves c)).filterMap s.liveTarget?).eraseDups) ∧
    ∀ call cause, call.perform s = .error cause →
      ∀ rest, empty.run (calls ++ call :: rest) = empty.run (calls ++ rest) ∧
        empty.made (calls ++ call :: rest) = empty.made (calls ++ rest) := by
  intro s made
  have hb : s.Built := Built.empty.run calls
  have hmade : made = s.issued := (issued_run empty calls).symm
  have hout (c : ContactId) : s.outgoing.getD c [] = made.filter (s.leaves c) := hmade ▸ hb.inOrder c
  refine ⟨fun id x hx => ?_, hmade ▸ s.nodup_issued, hout, fun c => ?_, fun call cause hc rest => ?_⟩
  · obtain ⟨hs, ht⟩ := hb.wired.ends id x hx
    have hid : id ∈ s.outgoing.getD x.source [] := (hb.wired.listed x.source id).2 ⟨x, hx, rfl⟩
    exact ⟨hb.wired.connection_id id x hx, hs, ht, hmade ▸ (hb.inOrder.of_mem hid).1⟩
  · rw [downstream, foldl_listTarget, hout c]
  · have hsame : s.occur call = s := by rw [occur, hc]
    rw [run_append, run_append, run, made_append, made_append, ContactStore.made, StoreCall.makes_of_refused hc, hsame]
    exact ⟨rfl, rfl⟩

/-- Eleven connections out of one contact, most of which go again. -/
def manyWires : List StoreCall :=
  [.register "a" .max none, .register "b" .max none, .connect "w" "a" "b", .connect "u" "a" "b"] ++
    List.replicate 7 (.connect "w" "a" "b") ++
    [.connect "u" "a" "a", .connect "u" "a" "b", .removeWire "w", .setActive "c2" false]

/-- The tenth connection stands behind the second, although its name sorts before it. -/
theorem run_topology_many :
    (empty.run manyWires).outgoing.getD "a" [] = ["c2", "c10", "c11"] ∧
    (empty.run manyWires).downstream "a" = ["a", "b"] ∧
    StoreCall.perform (empty.run manyWires) (.connect "u" "a" "z") = .error (.notFound "z") ∧
    empty.run (manyWires ++ [.connect "u" "a" "z"]) = empty.run manyWires := by
  obtain ⟨-, -, hout, hdown, hrefused⟩ := run_topology manyWires
  have hz : StoreCall.perform (empty.run manyWires) (.connect "u" "a" "z") = .error (.notFound "z") := by cbv
  refine ⟨(hout "a").trans (by cbv), (hdown "a").trans (by cbv), hz, ?_⟩
  rw [(hrefused _ _ hz []).1, List.append_nil]

end ContactStore

end Patchbay
