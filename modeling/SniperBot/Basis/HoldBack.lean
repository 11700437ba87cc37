import Mathlib.Data.List.Infix
import Mathlib.Logic.Relation

/-!
# Messages that are held back

A receiver that connects again and again. While a connection is set up, what arrives is held back;
`fresh` are the messages of this connection and `pending` those that are kept if it fails. When it
is ready, the pending messages are handled in order, and after that each message as it arrives. A
message that cannot be handled ends the connection.

Whatever the receiver does, messages are handled in the order of receipt and at most once
(`Sound.inOrder`), and a connection that is ready has handled everything that arrived on it
(`Sound.handled_of_ready`). A pending message stays until it is handled, unless the receiver
clears its messages (`Steps.mem_pending`).
-/

namespace Basis

variable {μ : Type*}

structure HoldBack (μ : Type*) where
  received : List μ := []
  /-- What arrived on the connection. -/
  arrived : List μ := []
  handled : List μ := []
  pending : List μ := []
  fresh : List μ := []
  up : Bool := false
  ready : Bool := false

namespace HoldBack

variable {h h' : HoldBack μ} {mayClear : Prop}

/-- The connection is over, and what was fresh is lost. -/
def down (h : HoldBack μ) : HoldBack μ := { h with fresh := [], up := false, ready := false }

/-- A message arrives. -/
def arrive (h : HoldBack μ) (m : μ) : HoldBack μ :=
  { h with received := h.received ++ [m], arrived := h.arrived ++ [m] }

/-- What the receiver may do. -/
inductive Step (mayClear : Prop) : HoldBack μ → HoldBack μ → Prop
  | connect (h : HoldBack μ) :
      Step mayClear h { h.down with arrived := [], up := true }
  | keep (h : HoldBack μ) (m : μ) (hready : h.ready = false) :
      Step mayClear h { h.arrive m with fresh := h.fresh ++ [m] }
  | pass (h : HoldBack μ) (m : μ) (hready : h.ready = true) :
      Step mayClear h { h.arrive m with handled := h.handled ++ [m] }
  /-- A message is lost with its connection; what is fresh may be used yet. -/
  | lose (h : HoldBack μ) (m : μ) :
      Step mayClear h { h.arrive m with up := false, ready := false }
  | absorb (h : HoldBack μ) (hready : h.ready = false) :
      Step mayClear h { h with pending := h.pending ++ h.fresh, fresh := [] }
  /-- The connection fails; what is fresh may be used yet. -/
  | shut (h : HoldBack μ) : Step mayClear h { h with up := false, ready := false }
  | drop (h : HoldBack μ) : Step mayClear h h.down
  /-- All pending messages are handled. -/
  | finish (h : HoldBack μ) (hup : h.up = true) (hfresh : h.fresh = []) :
      Step mayClear h { h with handled := h.handled ++ h.pending, pending := [], ready := true }
  /-- Handling the pending messages stops at one of them. -/
  | stop (h : HoldBack μ) (before after : List μ) (hpending : h.pending = before ++ after) :
      Step mayClear h { h.down with handled := h.handled ++ before, pending := after }
  | clear (h : HoldBack μ) (hclear : mayClear) : Step mayClear h { h.down with pending := [] }

/-- Any number of steps. -/
def Steps (mayClear : Prop) : HoldBack μ → HoldBack μ → Prop :=
  Relation.ReflTransGen (Step mayClear)

theorem Step.mono {mayClear' : Prop} (himp : mayClear → mayClear') (hstep : Step mayClear h h') :
    Step mayClear' h h' := by
  cases hstep with
  | connect => exact .connect _
  | keep m hready => exact .keep _ m hready
  | pass m hready => exact .pass _ m hready
  | lose m => exact .lose _ m
  | absorb hready => exact .absorb _ hready
  | shut => exact .shut _
  | drop => exact .drop _
  | finish hup hfresh => exact .finish _ hup hfresh
  | stop before after hpending => exact .stop _ before after hpending
  | clear hclear => exact .clear _ (himp hclear)

theorem Steps.mono {mayClear' : Prop} (himp : mayClear → mayClear') (hsteps : Steps mayClear h h') :
    Steps mayClear' h h' := by
  induction hsteps with
  | refl => exact .refl
  | tail _ hstep ih => exact ih.tail (hstep.mono himp)

/-- The messages are where they belong. -/
structure Sound (h : HoldBack μ) : Prop where
  inOrder : (h.handled ++ (h.pending ++ h.fresh)).Sublist h.received
  /-- While the connection is up, nothing of it is lost. -/
  complete : h.up = true → h.arrived <:+ h.handled ++ (h.pending ++ h.fresh)
  ready : h.ready = true → h.up = true ∧ h.pending = [] ∧ h.fresh = []

theorem Sound.init : ({} : HoldBack μ).Sound where
  inOrder := List.Sublist.refl _
  complete h := absurd h Bool.false_ne_true
  ready h := absurd h Bool.false_ne_true

/-- A connection that is over makes no promise but the order. -/
theorem Sound.of_sublist (hdown : h.up = false) (hready : h.ready = false)
    (horder : (h.handled ++ (h.pending ++ h.fresh)).Sublist h.received) : h.Sound where
  inOrder := horder
  complete hup := absurd (hdown.symm.trans hup) Bool.false_ne_true
  ready hr := absurd (hready.symm.trans hr) Bool.false_ne_true

/-- A connection that is being set up. -/
theorem Sound.of_suffix (hready : h.ready = false)
    (horder : (h.handled ++ (h.pending ++ h.fresh)).Sublist h.received)
    (hsuffix : h.arrived <:+ h.handled ++ (h.pending ++ h.fresh)) : h.Sound where
  inOrder := horder
  complete _ := hsuffix
  ready hr := absurd (hready.symm.trans hr) Bool.false_ne_true

/-- What remains of the messages when the fresh ones are lost. -/
theorem Sound.sublist_down (hs : h.Sound) : (h.handled ++ (h.pending ++ [])).Sublist h.received := by
  have hlost : (h.pending ++ []).Sublist (h.pending ++ h.fresh) :=
    (List.Sublist.refl _).append (List.nil_sublist _)
  exact ((List.Sublist.refl _).append hlost).trans hs.inOrder

theorem Sound.step (hs : h.Sound) (hstep : Step mayClear h h') : h'.Sound := by
  cases hstep with
  | connect => exact .of_suffix rfl hs.sublist_down (List.nil_suffix)
  | keep m hready =>
      refine ⟨?_, fun hup => ?_, fun hr => absurd (hready.symm.trans hr) Bool.false_ne_true⟩
      · have happend := hs.inOrder.append (List.Sublist.refl [m])
        simpa only [arrive, List.append_assoc] using happend
      · obtain ⟨earlier, hearlier⟩ := hs.complete hup
        refine ⟨earlier, ?_⟩
        rw [arrive, ← List.append_assoc, hearlier]
        simp only [List.append_assoc]
  | pass m hready =>
      obtain ⟨hup, hpending, hfresh⟩ := hs.ready hready
      have horder := hs.inOrder
      have hsuffix := hs.complete hup
      rw [hpending, hfresh, List.append_nil, List.append_nil] at horder hsuffix
      refine ⟨?_, fun _ => ?_, fun _ => ⟨hup, hpending, hfresh⟩⟩
      · simpa only [arrive, hpending, hfresh, List.append_nil] using
          horder.append (List.Sublist.refl [m])
      · obtain ⟨earlier, hearlier⟩ := hsuffix
        refine ⟨earlier, ?_⟩
        simp only [arrive, hpending, hfresh, List.append_nil]
        rw [← List.append_assoc, hearlier]
  | lose m => exact .of_sublist rfl rfl (hs.inOrder.trans (List.sublist_append_left _ _))
  | absorb hready =>
      have horder := hs.inOrder
      have hcomplete := hs.complete
      rw [← List.append_nil (h.pending ++ h.fresh)] at horder hcomplete
      exact ⟨horder, hcomplete, fun hr => absurd (hready.symm.trans hr) Bool.false_ne_true⟩
  | shut => exact .of_sublist rfl rfl hs.inOrder
  | drop => exact .of_sublist rfl rfl hs.sublist_down
  | finish hup hfresh =>
      have horder := hs.inOrder
      have hsuffix := hs.complete hup
      rw [hfresh, List.append_nil] at horder hsuffix
      refine ⟨?_, fun _ => ?_, fun _ => ⟨hup, rfl, hfresh⟩⟩
      · simpa only [hfresh, List.append_nil] using horder
      · simpa only [hfresh, List.append_nil] using hsuffix
  | stop before after hpending =>
      refine .of_sublist rfl rfl ?_
      have horder := hs.sublist_down
      rw [hpending] at horder
      simpa only [down, List.append_assoc] using horder
  | clear =>
      refine .of_sublist rfl rfl ?_
      have hhandled := (List.sublist_append_left h.handled (h.pending ++ [])).trans hs.sublist_down
      simpa only [down, List.append_nil] using hhandled

theorem Sound.steps (hs : h.Sound) (hsteps : Steps mayClear h h') : h'.Sound := by
  induction hsteps with
  | refl => exact hs
  | tail _ hstep ih => exact ih.step hstep

/-- A connection that is ready has handled everything that arrived on it. -/
theorem Sound.handled_of_ready (hs : h.Sound) (hready : h.ready = true) :
    h.arrived <:+ h.handled := by
  obtain ⟨hup, hpending, hfresh⟩ := hs.ready hready
  have hsuffix := hs.complete hup
  rwa [hpending, hfresh, List.append_nil, List.append_nil] at hsuffix

/-! ## What stays -/

theorem Step.handled_prefix (hstep : Step mayClear h h') : h.handled <+: h'.handled := by
  cases hstep with
  | pass m => exact List.prefix_append _ _
  | finish => exact List.prefix_append _ _
  | stop before after => exact List.prefix_append _ _
  | connect | keep | lose | absorb | shut | drop | clear => exact List.prefix_refl _

/-- A pending message goes nowhere without being handled. -/
theorem Step.mem_pending (hstep : Step False h h') {m : μ} (hm : m ∈ h.pending) :
    m ∈ h'.pending ∨ m ∈ h'.handled := by
  cases hstep with
  | absorb => exact .inl (List.mem_append_left _ hm)
  | finish => exact .inr (List.mem_append_right _ hm)
  | stop before after hpending =>
      rcases List.mem_append.mp (hpending ▸ hm) with hbefore | hafter
      · exact .inr (List.mem_append_right _ hbefore)
      · exact .inl hafter
  | clear hclear => exact hclear.elim
  | connect | keep | pass | lose | shut | drop => exact .inl hm

theorem Steps.mem_pending (hsteps : Steps False h h') {m : μ} (hm : m ∈ h.pending) :
    m ∈ h'.pending ∨ m ∈ h'.handled := by
  induction hsteps with
  | refl => exact .inl hm
  | tail _ hstep ih =>
      rcases ih with hpending | hhandled
      · exact hstep.mem_pending hpending
      · exact .inr (hstep.handled_prefix.subset hhandled)

end HoldBack

end Basis
