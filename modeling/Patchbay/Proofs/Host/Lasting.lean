import Patchbay.Proofs.Host.Refusal

/-! What lasts. A property that boards have from the start, and keep whatever is asked of them, the boards of a host have
after any events. -/

namespace Patchbay

namespace Host

variable {h s : Host}

/-! ## Settings -/

/-- Two hosts differ at most in the boards at work and in the journal. -/
def SameSettings (h s : Host) : Prop := s = { h with boards := s.boards, journal := s.journal }

theorem SameSettings.trans {t : Host} (hs : h.SameSettings s) (ht : s.SameSettings t) : h.SameSettings t := by
  rw [SameSettings] at hs ht ⊢
  rw [ht, hs]

theorem Moves.sameSettings (hm : h.Moves s) : h.SameSettings s := by
  cases hm <;> rfl

theorem sameSettings_occur (h : Host) (event : HostEvent) : h.SameSettings (h.occur event) := by
  cases event with
  | call call => exact (h.moves_answer call).sameSettings
  | listen id l => rfl

/-! ## Boards -/

def All (h : Host) (P : LiveBoard → Prop) : Prop := ∀ id b, h.boards.get? id = some b → P b

/-- A board that is started with the settings of a host has the property, and nothing that is asked of it takes the
property away. -/
structure Lasting (h : Host) (P : LiveBoard → Prop) : Prop where
  start : ∀ {board b report},
    LiveBoard.start h.workshop h.newBinder h.config.limits h.config.maxRounds board = .ok (b, report) → P b
  turn : ∀ {b b'}, P b → b.Turns h.workshop b' → P b'
  takeNotes : ∀ {b}, P b → P b.takeNotes.1
  listen : ∀ {b} l, P b → P (b.listen l)

variable {P : LiveBoard → Prop}

theorem Lasting.sameSettings (hl : h.Lasting P) (hs : h.SameSettings s) : s.Lasting P := by
  rw [hs]
  exact ⟨hl.start, hl.turn, hl.takeNotes, hl.listen⟩

theorem Lasting.all_keep (hl : h.Lasting P) (ha : h.All P) {b : LiveBoard} (hb : P b) : (h.keep b).All P := by
  intro id b' hb'
  rcases Dict.get?_insert_eq_some.1 hb' with ⟨-, rfl⟩ | ⟨-, hb'⟩
  · exact hl.takeNotes hb
  · exact ha id b' hb'

theorem Lasting.all_moves (hl : h.Lasting P) (ha : h.All P) (hm : h.Moves s) : s.All P := by
  cases hm with
  | unchanged => exact ha
  | started _ hb => exact hl.all_keep ha (hl.start hb)
  | turned hb ht => exact hl.all_keep ha (hl.turn (ha _ _ hb) ht)
  | closed id => exact fun id' b hb => ha id' b (Dict.get?_erase_eq_some.1 hb).2

theorem Lasting.all_occur (hl : h.Lasting P) (ha : h.All P) (event : HostEvent) : (h.occur event).All P := by
  cases event with
  | call call => exact hl.all_moves ha (h.moves_answer call)
  | listen id l =>
    intro id' b hb
    rw [occur, Dict.get?_modify] at hb
    split at hb
    · obtain ⟨b', hb', rfl⟩ := Option.map_eq_some_iff.1 hb
      exact hl.listen l (ha id' b' hb')
    · exact ha id' b hb

/-- What lasts, the boards of a host that began without boards have after any events. -/
theorem Lasting.all_after (hl : h.Lasting P) (hboards : h.boards = ∅) (events : List HostEvent) :
    (h.after events).All P := by
  have hnone : h.All P := by
    intro id b hb
    rw [hboards] at hb
    cases hb
  have hkeeps : h.SameSettings (h.after events) ∧ (h.after events).All P := by
    refine foldl_keeps (P := fun s => h.SameSettings s ∧ s.All P) (fun s event _ hs => ?_) ⟨rfl, hnone⟩
    exact ⟨hs.1.trans (s.sameSettings_occur event), (hl.sameSettings hs.1).all_occur hs.2 event⟩
  exact hkeeps.2

theorem lasting_kept (hn : h.naming.Faithful) : h.Lasting (LiveBoard.Kept h.aspects h.naming) where
  start hs := LiveBoard.kept_of_start (Binder.kept_of_vacant ..) hs
  turn hb ht := hb.turn hn ht
  takeNotes hb := hb.takeNotes
  listen l hb := hb.listen l

theorem tidy_after (hboards : h.boards = ∅) (events : List HostEvent) : (h.after events).Tidy := by
  refine Tidy.after (fun id b hb => ?_) events
  rw [hboards] at hb
  cases hb

end Host

end Patchbay
