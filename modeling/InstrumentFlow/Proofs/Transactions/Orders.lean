import InstrumentFlow.Proofs.Transactions.Rest

/-!
# Requests and the host

Of all that the host can order only an answer to a request gives an answer.

* `Tends.of_ledger` -- transactions that are given up;
* `tends_perform` -- every command but an answer.
-/

namespace InstrumentFlow

open Scpi

namespace Engine

/-! ## 1. Transactions that are given up -/

/-- Neither progress nor the journal changes. -/
theorem Settled.congr {e e' : Engine} (hs : e.Settled) (hf : e'.forest = e.forest)
    (hj : e'.journal = e.journal) : e'.Settled := by
  refine ⟨fun i c => ?_, fun i c => ?_, fun i c => ?_⟩
  · rw [hj]
    exact hs.idle i c
  · rw [hj, pendingOf_congr (e := e)]
    · exact hs.waits i c
    · unfold progress? instance?
      rw [hf]
  · rw [hj]
    exact hs.inTurn i c

/-- Transactions are given up, and nothing is told. -/
theorem Tends.of_ledger {e e' : Engine} (hf : e'.forest = e.forest) (hj : e'.journal = e.journal)
    (hl : e.ledger.Serves e'.ledger)
    (ha : ∀ n r, e'.ledger.outcome? n = some (.answered r) →
      e.ledger.outcome? n = some (.answered r)) : Tends e e' := by
  intro hs
  refine ⟨hs.congr hf hj, .of_serves hj hl fun n r hw hr => ?_⟩
  cases hw.symm.trans (ha n r hr)

section

variable (e : Engine)

theorem tends_settleRequest (number : Nat) : Tends e (e.settleRequest number).2 := by
  rw [settleRequest_snd]
  exact .beside rfl rfl rfl

/-- A transaction is given up. -/
theorem tends_close (n : Nat) : Tends e { e with ledger := e.ledger.close n } :=
  .of_ledger rfl rfl (.close e.ledger n) fun _ _ => Ledger.answered_of_close

theorem tends_dropRequest (number : Nat) : Tends e (e.dropRequest number).2 := by
  have hsettle := tends_settleRequest e number
  unfold dropRequest
  split
  · next he =>
    rw [he] at hsettle
    exact hsettle
  · next e₁ he =>
    rw [he] at hsettle
    exact hsettle.trans (tends_close e₁ _)

theorem tends_leaveDesk : Tends e e.leaveDesk.2 := by
  unfold leaveDesk
  split
  · exact .of_ledger rfl rfl (.closeAll e.ledger _) fun _ _ => Ledger.answered_of_closeAll
  · exact .refl e

end

/-! ## 2. Commands -/

theorem tends_setHostState (e : Engine) (i : InstanceId) (c : Nat) (state : Option Int32) :
    Tends e (e.setHostState i c state) := by
  unfold setHostState
  split
  · exact tends_allocateProgress e i c fun _ h => nomatch h
  · exact tends_releaseProgress e i c

section

variable {handler : Handler} (hh : HandlerLeaps False handler) {e : Engine} (hst : e.Standing)
include hh hst

/-- **Every command but an answer** leaves a settled state, and gives no answer. -/
theorem tends_perform (command : Command)
    (hr : ∀ number response, command ≠ .respond number response) :
    Tends e (perform handler command e).2 := by
  have hi := hst.inv
  cases command with
  | startFlow flow =>
    have hstart : Leap False False False e { e.record .restarted with
        stopped := false, stopRequested := false, lastError := none } := .restart
    have hmute : Mute noOne e (e.record .restarted) := .record e rfl
    have hrestart := hmute.trans (Mute.beside rfl rfl rfl : Mute noOne (e.record .restarted)
      { e.record .restarted with stopped := false, stopRequested := false, lastError := none })
    have hflow : Upholds (Aside noOne e) (fun _ _ => True) (startFlow flow) e := by
      unfold startFlow
      refine upholds_modify_bind ?_
      exact (upholds_aside_create (hst.leaps (.single hstart)).inv flow rfl).mono
        (fun _ h => hrestart.aside.trans h) fun _ _ _ _ => trivial
    exact Aside.tends (upholds_replyOf hflow)
  | shutdown => exact tolerant_tends.shutdown tends_bury e
  | tick => exact tends_tick hh hst _
  | runUntilIdle maxTicks => exact tends_runUntilIdle hh _ maxTicks hst
  | setHostState i component state => exact tends_setHostState e i component state
  | call i component flow =>
    exact Aside.tends (upholds_replyOf (upholds_aside_call hi i component flow))
  | raiseError i component message => exact tends_raiseError e i component message
  | startAsync i component => exact (Mute.startAsync e none i component).tends
  | endAsync i component => exact tolerant_tends.endAsync tends_bury e none i component
  | respond number response => exact absurd rfl (hr number response)
  | dropRequest number => exact tends_dropRequest e number
  | leaveDesk => exact tends_leaveDesk e
  | _ => exact tolerant_tends.perform handler rfl e

end

end Engine

end InstrumentFlow
