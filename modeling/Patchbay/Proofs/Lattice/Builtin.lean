import Patchbay.Proofs.Dict
import Patchbay.Proofs.Except
import Patchbay.Proofs.Lattice.Rank
import Mathlib.Data.Fintype.Order
import Mathlib.Order.CompletePartialOrder
import Mathlib.Order.WithBot

/-! The lattices at hand are lawful on their carriers. Numbers are ranked by their size, arrays by the texts of their
elements, and truth values by themselves. -/

namespace Patchbay.Lattice

/-! ## Truth values -/

def Flag (v : Json) : Prop := v = .null ∨ ∃ b, v = .bool b

theorem flag_eq_ok {v : Json} (h : Flag v) : flag v = .ok (isTrue v) := by
  rcases h with rfl | ⟨b, rfl⟩ <;> rfl

theorem flag_of_flag_eq_ok {v : Json} {b : Bool} (h : flag v = .ok b) : Flag v := by
  unfold flag at h
  split at h
  · exact .inl rfl
  · exact .inr ⟨_, rfl⟩
  · cases h

theorem flag_bool (b : Bool) : Flag (.bool b) := .inr ⟨b, rfl⟩

theorem disjunction_join {a b : Json} (ha : Flag a) (hb : Flag b) :
    disjunction.join a b = .ok (.bool (isTrue a || isTrue b)) := by
  simp only [disjunction, flag_eq_ok ha, flag_eq_ok hb, bind, Except.bind, pure, Except.pure]
  cases isTrue a <;> rfl

theorem disjunction_equivalent {a b : Json} : disjunction.equivalent a b = true ↔ isTrue a = isTrue b :=
  beq_iff_eq

theorem disjunction_ranked : disjunction.Ranked Flag isTrue where
  null_mem := .inl rfl
  rank_null := rfl
  equivalent_iff _ _ := disjunction_equivalent
  join ha hb := ⟨_, disjunction_join ha hb, flag_bool _, rfl⟩

theorem disjunction_lawful : disjunction.Lawful Flag := disjunction_ranked.lawful

/-! ## Numbers -/

def Numeric (v : Json) : Prop := v = .null ∨ ∃ n x, v = .num n ∧ n.toDouble? = some x

/-- The key of the number that a value is; null has none, which is less than any. -/
def keyed (key : Double → Int) (v : Json) : WithBot Int :=
  match v.asDouble? with
  | some x => key x
  | none => ⊥

theorem numberIn_eq_ok {name : String} {v : Json} {x : Option Double} :
    numberIn name v = .ok x ↔ Numeric v ∧ v.asDouble? = x := by
  constructor
  · intro h
    unfold numberIn at h
    split at h
    · cases h
      exact ⟨.inl rfl, rfl⟩
    · next n =>
      split at h
      · next y hy =>
        cases h
        exact ⟨.inr ⟨n, y, rfl, hy⟩, hy⟩
      · cases h
    · cases h
  · rintro ⟨rfl | ⟨n, y, rfl, hy⟩, rfl⟩
    · rfl
    · simp only [numberIn, Json.asDouble?, hy]

theorem numbersEquivalent_num {m n : Number} {x y : Double} (hx : m.toDouble? = some x) (hy : n.toDouble? = some y) :
    numbersEquivalent (.num m) (.num n) = x.same y := by
  simp only [numbersEquivalent, hx, hy]

variable {name : String} {better : Double → Double → Bool} {key : Double → Int}

theorem numeric_equivalent (hsame : ∀ x y, x.same y = true ↔ key x = key y) {a b : Json} (ha : Numeric a)
    (hb : Numeric b) : numbersEquivalent a b = true ↔ keyed key a = keyed key b := by
  rcases ha with rfl | ⟨m, x, rfl, hx⟩ <;> rcases hb with rfl | ⟨n, y, rfl, hy⟩
  · exact iff_of_true rfl rfl
  · simp only [keyed, Json.asDouble?, hy]
    exact iff_of_false Bool.false_ne_true (WithBot.bot_ne_coe)
  · simp only [keyed, Json.asDouble?, hx]
    exact iff_of_false Bool.false_ne_true (WithBot.coe_ne_bot)
  · simp only [numbersEquivalent, keyed, Json.asDouble?, hx, hy]
    rw [hsame, WithBot.coe_inj]

theorem numeric_join_num {m n : Number} {x y : Double} (hx : m.toDouble? = some x) (hy : n.toDouble? = some y) :
    (numeric name better).join (.num m) (.num n) = .ok (if better y x then .num n else .num m) := by
  simp only [numeric, numberIn, hx, hy, bind, Except.bind, pure, Except.pure]

theorem numeric_join_null {n : Number} {y : Double} (hy : n.toDouble? = some y) :
    (numeric name better).join .null (.num n) = .ok (.num n) := by
  simp only [numeric, numberIn, hy, bind, Except.bind, pure, Except.pure]

/-- One of two values is kept, the one of the greater key. -/
theorem numeric_join (hbetter : ∀ i c, better i c = true ↔ key c < key i) {a b : Json} (ha : Numeric a)
    (hb : Numeric b) :
    ∃ c, (numeric name better).join a b = .ok c ∧ Numeric c ∧ keyed key c = keyed key a ⊔ keyed key b := by
  rcases ha with rfl | ⟨m, x, rfl, hx⟩
  · refine ⟨b, ?_, hb, (bot_sup_eq _).symm⟩
    simp only [numeric, numberIn_eq_ok.2 ⟨.inl rfl, rfl⟩, numberIn_eq_ok.2 ⟨hb, rfl⟩, bind, Except.bind, pure,
      Except.pure, Json.asDouble?]
  rcases hb with rfl | ⟨n, y, rfl, hy⟩
  · have hm : Numeric (.num m) := .inr ⟨m, x, rfl, hx⟩
    refine ⟨.num m, ?_, hm, (sup_bot_eq _).symm⟩
    simp only [numeric, numberIn_eq_ok.2 ⟨hm, hx⟩, numberIn_eq_ok.2 ⟨.inl rfl, rfl⟩, bind, Except.bind, pure,
      Except.pure, Json.asDouble?]
  have hm : Numeric (.num m) := .inr ⟨m, x, rfl, hx⟩
  have hn : Numeric (.num n) := .inr ⟨n, y, rfl, hy⟩
  have hkey : keyed key (.num m) = key x := by simp only [keyed, Json.asDouble?, hx]
  have hkey' : keyed key (.num n) = key y := by simp only [keyed, Json.asDouble?, hy]
  refine ⟨if better y x then .num n else .num m, ?_, ?_, ?_⟩
  · exact numeric_join_num hx hy
  · split <;> assumption
  · rw [hkey, hkey']
    split
    · next h => rw [hkey', sup_of_le_right (WithBot.coe_le_coe.2 ((hbetter y x).1 h).le)]
    · next h => rw [hkey, sup_of_le_left (WithBot.coe_le_coe.2 (not_lt.1 fun hlt => h ((hbetter y x).2 hlt)))]

theorem numeric_ranked (hsame : ∀ x y, x.same y = true ↔ key x = key y)
    (hbetter : ∀ i c, better i c = true ↔ key c < key i) : (numeric name better).Ranked Numeric (keyed key) where
  null_mem := .inl rfl
  rank_null := rfl
  equivalent_iff := numeric_equivalent hsame
  join := numeric_join hbetter

theorem max_ranked : max.Ranked Numeric (keyed Double.units) :=
  numeric_ranked (fun _ _ => beq_iff_eq) fun _ _ => decide_eq_true_iff

theorem min_ranked : min.Ranked Numeric (keyed fun x => -x.units) :=
  numeric_ranked (fun _ _ => beq_iff_eq.trans Int.neg_inj.symm) fun _ _ => decide_eq_true_iff.trans Int.neg_lt_neg_iff.symm

/-! ## Sets -/

def Listing (v : Json) : Prop := v = .null ∨ ∃ items, v = .arr items

def texts : Json → Set String
  | .arr items => { t | t ∈ items.map Json.text }
  | _ => ∅

/-- What a set lists stands under its text. -/
def Texted (d : Dict Json) : Prop := ∀ e ∈ d.entries, e.2.text = e.1

theorem Texted.map_text {d : Dict Json} (h : Texted d) : d.values.map Json.text = d.keys := by
  rw [Dict.values, Dict.keys, List.map_map]
  exact List.map_congr_left h

theorem Texted.texts_eq {d : Dict Json} (h : Texted d) : texts (.arr d.values) = { t | d.contains t = true } := by
  rw [texts, h.map_text]
  exact Set.ext fun t => Dict.mem_keys

theorem Texted.union {d e : Dict Json} (hd : Texted d) (he : Texted e) : Texted (d.union e) :=
  fun x hx => (Entries.mem_of_mem_merge hx).elim (hd x) (he x)

theorem listing_of_elements_eq_ok {v : Json} {d : Dict Json} (h : elements v = .ok d) : Listing v := by
  unfold elements at h
  split at h
  · exact .inl rfl
  · exact .inr ⟨_, rfl⟩
  · cases h

theorem exists_elements {v : Json} (h : Listing v) :
    ∃ d, elements v = .ok d ∧ Texted d ∧ texts v = { t | d.contains t = true } := by
  rcases h with rfl | ⟨items, rfl⟩
  · exact ⟨∅, rfl, nofun, Set.ext fun t => ⟨nofun, nofun⟩⟩
  · refine ⟨_, rfl, fun e he => ?_, Set.ext fun t => ?_⟩
    · obtain ⟨x, -, rfl⟩ := List.mem_map.1 (Entries.mem_of_mem_ofList he)
      rfl
    · refine (Dict.contains_ofList.trans ?_).symm
      rw [List.map_map]
      rfl

theorem setUnion_ranked : setUnion.Ranked Listing texts where
  null_mem := .inl rfl
  rank_null := rfl
  equivalent_iff ha hb := by
    obtain ⟨d, hd, -, hta⟩ := exists_elements ha
    obtain ⟨e, he, -, htb⟩ := exists_elements hb
    simp only [setUnion, hd, he]
    rw [beq_iff_eq, Dict.keys_eq_iff, hta, htb, Set.ext_iff]
    exact forall_congr' fun t => Bool.eq_iff_iff
  join ha hb := by
    obtain ⟨d, hd, htd, hta⟩ := exists_elements ha
    obtain ⟨e, he, hte, htb⟩ := exists_elements hb
    refine ⟨.arr (d.union e).values, ?_, .inr ⟨_, rfl⟩, ?_⟩
    · simp only [setUnion, hd, he, bind, Except.bind, pure, Except.pure]
    · rw [(htd.union hte).texts_eq, hta, htb]
      exact Set.ext fun t => Dict.contains_union

end Patchbay.Lattice
