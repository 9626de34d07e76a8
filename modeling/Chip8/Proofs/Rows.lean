import Chip8.Asm.ParseError
import Mathlib.Data.List.Forall2

/-!
# Rows of steps over lists

A step that is done for every member of a list succeeds exactly if it succeeds for each
of them, and then gives their values in order.

## Main results

* `mapM_eq_ok_iff`, `exists_mapM_eq_ok_iff` — rows of steps.
* `exists_forall₂_iff`, `exists_forall₂_trans_iff` — lists that are related place by
  place.
-/

namespace Chip8

variable {ε α β γ : Type}

theorem mapM_eq_ok_iff {step : α → Except ε β} {as : List α} {bs : List β} :
    as.mapM step = .ok bs ↔ List.Forall₂ (fun a b => step a = .ok b) as bs := by
  induction as generalizing bs with
  | nil =>
      rw [List.forall₂_nil_left_iff, List.mapM_nil]
      exact ⟨fun h => (Except.ok.inj h).symm, fun h => congrArg Except.ok h.symm⟩
  | cons a as ih =>
      rw [List.mapM_cons, List.forall₂_cons_left_iff]
      constructor
      · intro h
        obtain ⟨b, hb, h⟩ := exists_of_bind_eq_ok h
        obtain ⟨rest, hRest, h⟩ := exists_of_bind_eq_ok h
        exact ⟨b, rest, hb, ih.1 hRest, (Except.ok.inj h).symm⟩
      · intro hGiven
        rcases hGiven with ⟨b, rest, hb, hRest, rfl⟩
        rw [hb, ih.2 hRest]
        rfl

/-- A list has a related one exactly if each of its members has a related thing. -/
theorem exists_forall₂_iff {R : α → β → Prop} {as : List α} :
    (∃ bs, List.Forall₂ R as bs) ↔ ∀ a ∈ as, ∃ b, R a b := by
  induction as with
  | nil => simp
  | cons a as ih =>
      rw [List.forall_mem_cons, ← ih]
      constructor
      · intro hGiven
        rcases hGiven with ⟨bs, h⟩
        obtain ⟨b, rest, hb, hRest, rfl⟩ := List.forall₂_cons_left_iff.1 h
        exact ⟨⟨b, hb⟩, rest, hRest⟩
      · intro hGiven
        rcases hGiven with ⟨⟨b, hb⟩, rest, hRest⟩
        exact ⟨b :: rest, List.Forall₂.cons hb hRest⟩

theorem exists_mapM_eq_ok_iff {step : α → Except ε β} {as : List α} :
    (∃ bs, as.mapM step = .ok bs) ↔ ∀ a ∈ as, ∃ b, step a = .ok b := by
  simp only [mapM_eq_ok_iff]
  exact exists_forall₂_iff

/-- Two relations between lists, one after the other. -/
theorem exists_forall₂_trans_iff {R : α → β → Prop} {S : β → γ → Prop} {as : List α}
    {cs : List γ} : (∃ bs, List.Forall₂ R as bs ∧ List.Forall₂ S bs cs) ↔
      List.Forall₂ (fun a c => ∃ b, R a b ∧ S b c) as cs := by
  constructor
  · intro hGiven
    rcases hGiven with ⟨bs, hR, hS⟩
    induction hR generalizing cs with
    | nil => exact List.forall₂_nil_left_iff.1 hS ▸ List.Forall₂.nil
    | cons hHead _ ih =>
        obtain ⟨c, rest, hc, hRest, rfl⟩ := List.forall₂_cons_left_iff.1 hS
        exact List.Forall₂.cons ⟨_, hHead, hc⟩ (ih hRest)
  · intro h
    induction h with
    | nil => exact ⟨[], List.Forall₂.nil, List.Forall₂.nil⟩
    | cons hHead _ ih =>
        obtain ⟨b, hR, hS⟩ := hHead
        obtain ⟨bs, hRs, hSs⟩ := ih
        exact ⟨b :: bs, List.Forall₂.cons hR hRs, List.Forall₂.cons hS hSs⟩

end Chip8
