import Patchbay.Proofs.Lattice.Simple

/-! What a join takes over unread. A disjunction that is true looks at nothing, and a record takes the whole of what comes
into null, and a member that it lacks, as they are. Where what it takes over so is of its carrier, a join tells the
values of the carrier from all others. -/

namespace Patchbay.LatticeSpec

variable {s t : LatticeSpec} {a v w : Json}

/-- Joining `v` into `a` takes `w`, which is `v` or a part of it, for a value of `t` without a look at it. -/
inductive Unread : LatticeSpec → Json → Json → LatticeSpec → Json → Prop
  | outvoted (v : Json) : Unread .disjunction (.bool true) v .disjunction v
  | whole (name : String) (fields : List (String × LatticeSpec)) (v : Json) :
    Unread (.record name fields) .null v (.record name fields) v
  | fresh {name : String} {fields : List (String × LatticeSpec)} {m n : List (String × Json)} {k : String}
    {t : LatticeSpec} {w : Json} (hk : field? fields k = some t) (hm : Entries.find? k m = none)
    (hn : Entries.find? k n = some w) : Unread (.record name fields) (.obj m) (.obj n) t w
  | within {name : String} {fields : List (String × LatticeSpec)} {m n : List (String × Json)} {k : String}
    {s t : LatticeSpec} {a v w : Json} (hk : field? fields k = some s) (hm : Entries.find? k m = some a)
    (hn : Entries.find? k n = some v) (h : Unread s a v t w) : Unread (.record name fields) (.obj m) (.obj n) t w

/-- All that joining `v` into `a` takes over unread is what it is taken for. -/
def SafeAt (s : LatticeSpec) (a v : Json) : Prop := ∀ t w, Unread s a v t w → t.Carrier w

theorem Simple.safeAt (hs : s.Simple) (hne : s ≠ .disjunction) (a v : Json) : s.SafeAt a v := by
  intro t w h
  cases h with
  | outvoted => exact absurd rfl hne
  | _ => cases hs

theorem safeAt_of_carrier (hv : s.Carrier v) (a : Json) : s.SafeAt a v := by
  intro t w h
  induction h with
  | outvoted => exact hv
  | whole => exact hv
  | fresh hk _ hn =>
    cases hv with
    | whole h => cases h
    | obj _ listed => exact listed _ _ _ hk hn
  | within hk _ hn _ ih =>
    cases hv with
    | whole h => cases h
    | obj _ listed => exact ih (listed _ _ _ hk hn)

/-- A safe join is granted for the values of the carrier and refused for all others. -/
theorem Plain.join_ok_iff (hs : s.Plain) (ha : s.Carrier a) (hv : v.Valid) (h : s.SafeAt a v) :
    (∃ c, s.toLattice.join a v = .ok c) ↔ s.Carrier v := by
  refine ⟨?_, fun hc => (hs.commutative.total ha hc).imp fun _ hj => hj.1⟩
  induction hs generalizing a v with
  | simple hs =>
    intro hj
    rcases (hs.join_ok_iff.1 hj).2 with hc | ⟨rfl, rfl⟩
    · exact hc
    · exact h _ _ (.outvoted v)
  | @record name fields _ ih =>
    rintro ⟨c, hj⟩
    cases ha with
    | whole hnull =>
      obtain rfl := hnull
      exact h _ _ (.whole name fields v)
    | @obj _ _ m _ listed =>
      cases hv with
      | null => exact carrierOver_null _
      | @obj n hn hvn =>
        obtain ⟨out, hout, -⟩ := Lattice.record_join_obj.1 hj
        refine .obj hn (fun k s v hk hv => ?_) fun _ _ _ _ => trivial
        cases hm : Entries.find? k m with
        | none => exact h _ _ (.fresh hk hm hv)
        | some a =>
          have hat := Lattice.joinAt_of_joinMembers hn hout k
          rw [member_toLattices, hk, hm, hv] at hat
          obtain ⟨c, hj, -⟩ := Lattice.joinAt_some hat
          exact ih k s (mem_of_field? hk) (listed k s a hk hm) (hvn _ ((Entries.find?_eq_some_iff hn).1 hv))
            (fun t w hw => h t w (.within hk hm hv hw)) ⟨c, hj⟩
      | _ => cases hj

end Patchbay.LatticeSpec
