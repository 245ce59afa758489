import Llam.Lib.Run
import Llam.Wait.WakeWord

/-!
# Parking and waking a waiter

One waiter runs `llam_wait_node_should_park` and any number of producers run `llam_wake_wait_node_and_maybe_handoff` on
the same node, interleaved at every load, store and compare-and-swap. The producer whose compare-and-swap finds the node
armed owes the waiter its wake; it puts the waiter on a run queue, or switches to it directly. `park_wake_handshake` says
that a waiter that parks is woken exactly once and one that does not is never woken. The compare-and-swaps are the atomic
`prepareWake` and `shouldPark` of the wake word (`handshake_calls_atomic`).
-/

namespace Llam.Wait

open Llam.Lib Function

/-! ## The steps -/

/-- The words of `llam_wait_node_t` that the handshake uses. -/
structure Node where
  wakeArmed : WakeWord
  wakeQueued : Bool
  wakeCompleted : Bool
  deriving DecidableEq

/-- Where `llam_wait_node_should_park` is. -/
inductive Waiter
  | before
  /-- The compare-and-swap failed and found this word. -/
  | failed (seen : WakeWord)
  /-- It returned true. -/
  | parked
  /-- It returned false. -/
  | inline
  deriving DecidableEq

/-- Where a producer is. -/
inductive Producer
  | idle
  /-- In the loop of `llam_wait_node_prepare_wake`, with the word that was seen last. -/
  | looping (seen : WakeWord)
  /-- The node was armed and is taken; `wake_queued` is to be stored. -/
  | storeQueued
  /-- `wake_completed` is to be stored, and this is to be returned. -/
  | storeCompleted (wakes : Bool)
  /-- `llam_wait_node_prepare_wake` has returned. -/
  | returned (wakes : Bool)
  /-- The handoff was refused. -/
  | reinjecting
  | done
  deriving DecidableEq

/-- A node with its waiter and its producers. As history, how often the waiter was put on a run queue, and how often a
producer switched to it. -/
structure State (P : Type) where
  node : Node
  waiter : Waiter
  producer : P → Producer
  queued : Nat
  switched : Nat

/-- What is decided elsewhere at a step of a producer: a weak compare-and-swap fails for no reason, a handoff to the waiter
is done or refused. -/
inductive Outcome
  | plain | spurious | direct | refused
  deriving DecidableEq

inductive Action (P : Type)
  | park
  | wake (p : P) (outcome : Outcome)

section system

variable {P : Type} [DecidableEq P]

def State.init : State P := ⟨⟨.unarmed, false, false⟩, .before, fun _ => .idle, 0, 0⟩

def State.goto (s : State P) (p : P) (x : Producer) : State P := { s with producer := update s.producer p x }

/-- A step of `llam_wait_node_should_park` -/
def State.park (s : State P) : Option (State P) :=
  match s.waiter with
  | .before =>
    if s.node.wakeArmed = .unarmed then some { s with node.wakeArmed := .armed, waiter := .parked }
    else some { s with waiter := .failed s.node.wakeArmed }
  | .failed seen =>
    if seen = .completedQueued ∨ s.node.wakeQueued then some { s with waiter := .parked }
    else some { s with waiter := .inline }
  | .parked | .inline => none

/-- A step of a producer -/
def State.wake (s : State P) (p : P) (outcome : Outcome) : Option (State P) :=
  match s.producer p with
  | .idle => some (s.goto p (.looping s.node.wakeArmed))
  | .looping seen =>
    match seen with
    | .unarmed =>
      if s.node.wakeArmed = .unarmed ∧ outcome ≠ .spurious then
        some ({ s with node.wakeArmed := .completedInline }.goto p (.storeCompleted false))
      else some (s.goto p (.looping s.node.wakeArmed))
    | .armed =>
      if s.node.wakeArmed = .armed ∧ outcome ≠ .spurious then
        some ({ s with node.wakeArmed := .completedQueued }.goto p .storeQueued)
      else some (s.goto p (.looping s.node.wakeArmed))
    | .completedInline | .completedQueued => some (s.goto p (.returned false))
  | .storeQueued => some ({ s with node.wakeQueued := true }.goto p (.storeCompleted true))
  | .storeCompleted wakes => some ({ s with node.wakeCompleted := true }.goto p (.returned wakes))
  | .returned true =>
    match outcome with
    | .direct => some ({ s with switched := s.switched + 1 }.goto p .done)
    | .refused => some (s.goto p .reinjecting)
    | .plain | .spurious => some ({ s with queued := s.queued + 1 }.goto p .done)
  | .reinjecting => some ({ s with queued := s.queued + 1 }.goto p .done)
  | .returned false | .done => none

def step (s : State P) : Action P → Option (State P)
  | .park => s.park
  | .wake p outcome => s.wake p outcome

/-! ## The invariant -/

/-- The producer has taken the armed node and has not woken the waiter yet. -/
def Producer.owes : Producer → Bool
  | .storeQueued | .storeCompleted true | .returned true | .reinjecting => true
  | _ => false

/-- The producer has returned to its caller. -/
def Producer.finished : Producer → Bool
  | .returned false | .done => true
  | _ => false

/-- The producer has not completed the wait, nor seen it completed. -/
def Producer.trying : Producer → Bool
  | .idle | .looping .unarmed | .looping .armed => true
  | _ => false

/-- The producer is in the loop of `llam_wait_node_prepare_wake`. -/
def Producer.inLoop : Producer → Bool
  | .looping _ => true
  | _ => false

/-- How often the waiter was woken. -/
def State.woken (s : State P) : Nat := s.queued + s.switched

structure Inv (s : State P) : Prop where
  unarmed : s.node.wakeArmed = .unarmed → s.waiter = .before
  armed : s.node.wakeArmed = .armed → s.waiter = .parked
  inline : s.node.wakeArmed = .completedInline →
    s.waiter = .before ∨ s.waiter = .failed .completedInline ∨ s.waiter = .inline
  taken : s.node.wakeArmed = .completedQueued → s.waiter = .parked
  flag : s.node.wakeQueued = true → s.node.wakeArmed = .completedQueued
  /-- What a producer has seen completed is completed. -/
  seen : ∀ p w, s.producer p = .looping w → w.completed = true → s.node.wakeArmed = w
  trying : s.node.wakeArmed.completed = false → ∀ p, (s.producer p).trying = true
  owes : ∀ p, (s.producer p).owes = true → s.node.wakeArmed = .completedQueued ∧ s.woken = 0
  unique : ∀ p q, (s.producer p).owes = true → (s.producer q).owes = true → p = q
  pending : s.node.wakeArmed = .completedQueued → s.woken = 0 → ∃ p, (s.producer p).owes = true
  woken : s.woken ≠ 0 → s.node.wakeArmed = .completedQueued ∧ s.woken = 1

theorem init_inv : Inv (State.init : State P) := by
  refine ⟨fun _ => rfl, nofun, nofun, nofun, nofun, nofun, fun _ _ => rfl, nofun, nofun, nofun, ?_⟩
  exact fun h => absurd rfl h

variable {s s' : State P} {p : P} {x : Producer}

section

variable (h : Inv s)

include h

/-- A producer moves on without writing to the node; it keeps what it owes. -/
theorem Inv.goto (howes : x.owes = (s.producer p).owes)
    (hseen : ∀ w, x = .looping w → w.completed = true → s.node.wakeArmed = w)
    (htrying : s.node.wakeArmed.completed = false → x.trying = true) : Inv (s.goto p x) := by
  have hproducer : ∀ q, ((s.goto p x).producer q).owes = (s.producer q).owes := by
    intro q
    simp only [State.goto, update_apply]
    split
    · rename_i hq
      rw [hq, howes]
    · rfl
  refine { h with seen := ?_, trying := ?_, owes := ?_, unique := ?_, pending := ?_ }
  · intro q w
    simp only [State.goto, update_apply]
    split
    · exact hseen w
    · exact h.seen q w
  · intro hopen q
    simp only [State.goto, update_apply]
    split
    · exact htrying hopen
    · exact h.trying hopen q
  · intro q
    rw [hproducer]
    exact h.owes q
  · intro q r
    rw [hproducer, hproducer]
    exact h.unique q r
  · intro htaken hzero
    obtain ⟨q, hq⟩ := h.pending htaken hzero
    exact ⟨q, (hproducer q).trans hq⟩

/-- The two flags are stored by producers that have won. -/
theorem Inv.store {queued completed : Bool} (hqueued : queued = true → s.node.wakeArmed = .completedQueued) :
    Inv { s with node := ⟨s.node.wakeArmed, queued, completed⟩ } :=
  { h with flag := hqueued }

theorem Inv.pay (howes : (s.producer p).owes = true) {queued switched : Nat} (hone : queued + switched = s.woken + 1) :
    Inv ({ s with queued := queued, switched := switched }.goto p .done) := by
  obtain ⟨htaken, hzero⟩ := h.owes p howes
  have hwoken : ({ s with queued := queued, switched := switched }.goto p .done).woken = 1 := by
    show queued + switched = 1
    rw [hone, hzero]
  have hnone : ∀ q, (({ s with queued := queued, switched := switched }.goto p .done).producer q).owes = false := by
    intro q
    simp only [State.goto, update_apply]
    split
    · rfl
    rename_i hq
    cases hqo : (s.producer q).owes with
    | false => rfl
    | true => exact absurd (h.unique q p hqo howes) hq
  refine { h with seen := ?_, trying := ?_, owes := ?_, unique := ?_, pending := ?_, woken := ?_ }
  · intro q w
    simp only [State.goto, update_apply]
    split
    · nofun
    · exact h.seen q w
  · intro hopen
    have hopen' : s.node.wakeArmed.completed = false := hopen
    rw [htaken] at hopen'
    cases hopen'
  · intro q hq
    rw [hnone] at hq
    cases hq
  · intro q r hq
    rw [hnone] at hq
    cases hq
  · intro _ hzero'
    rw [hwoken] at hzero'
    cases hzero'
  · exact fun _ => ⟨htaken, hwoken⟩

/-- A producer completes a wait that was not completed. -/
theorem Inv.complete {word : WakeWord} (hopen : s.node.wakeArmed.completed = false)
    (hword : word = .completedInline ∧ x = .storeCompleted false ∧ s.waiter = .before ∨
      word = .completedQueued ∧ x = .storeQueued ∧ s.waiter = .parked) :
    Inv ({ s with node.wakeArmed := word }.goto p x) := by
  have hothers : ∀ q, (s.producer q).owes = false := by
    intro q
    have := h.trying hopen q
    cases hq : s.producer q <;> rw [hq] at this <;> first | rfl | cases this
  have hzero : s.woken = 0 := by
    by_contra hne
    rw [(h.woken hne).1] at hopen
    cases hopen
  have hflag : s.node.wakeQueued = false := by
    cases hq : s.node.wakeQueued with
    | false => rfl
    | true =>
      rw [h.flag hq] at hopen
      cases hopen
  have howes : ∀ q, (({ s with node.wakeArmed := word }.goto p x).producer q).owes = true → q = p ∧ x.owes = true := by
    intro q
    simp only [State.goto, update_apply]
    split
    · rename_i hq
      exact fun hx => ⟨hq, hx⟩
    · rw [hothers q]
      nofun
  have hseen : ∀ q w, ({ s with node.wakeArmed := word }.goto p x).producer q = .looping w → w.completed = true →
      word = w := by
    intro q w
    simp only [State.goto, update_apply]
    split
    · rcases hword with ⟨-, rfl, -⟩ | ⟨-, rfl, -⟩ <;> nofun
    intro hq hw
    have hold := h.seen q w hq hw
    rw [hold, hw] at hopen
    cases hopen
  rcases hword with ⟨rfl, rfl, hwaiter⟩ | ⟨rfl, rfl, hwaiter⟩
  · refine ⟨nofun, nofun, fun _ => .inl hwaiter, nofun, ?_, hseen, nofun, ?_, ?_, nofun, ?_⟩
    · intro hq
      have hq' : s.node.wakeQueued = true := hq
      rw [hflag] at hq'
      cases hq'
    · exact fun q hq => absurd (howes q hq).2 (by decide)
    · exact fun q r hq => absurd (howes q hq).2 (by decide)
    · exact fun hne => absurd hzero hne
  · refine ⟨nofun, nofun, nofun, fun _ => hwaiter, fun _ => rfl, hseen, nofun, ?_, ?_, ?_, ?_⟩
    · exact fun q _ => ⟨rfl, hzero⟩
    · exact fun q r hq hr => (howes q hq).1.trans (howes r hr).1.symm
    · refine fun _ _ => ⟨p, ?_⟩
      simp only [State.goto, update_self]
      rfl
    · exact fun hne => absurd hzero hne

theorem Inv.wake {outcome : Outcome} (hs : s.wake p outcome = some s') : Inv s' := by
  unfold State.wake at hs
  cases hp : s.producer p with
  | idle =>
    rw [hp] at hs
    cases hs
    refine h.goto (by rw [hp]; rfl) ?_ ?_
    · intro w hw _
      exact Producer.looping.inj hw
    · intro hopen
      cases hw : s.node.wakeArmed <;> rw [hw] at hopen <;> first | rfl | cases hopen
  | looping seen =>
    rw [hp] at hs
    -- the loop goes round with the word that is there
    have hagain : Inv (s.goto p (.looping s.node.wakeArmed)) := by
      refine h.goto (by rw [hp]; rfl) ?_ ?_
      · intro w hw _
        exact Producer.looping.inj hw
      · intro hopen
        cases hw : s.node.wakeArmed <;> rw [hw] at hopen <;> first | rfl | cases hopen
    have hreturn : seen.completed = true → Inv (s.goto p (.returned false)) := by
      intro hcompleted
      refine h.goto (by rw [hp]; rfl) nofun ?_
      intro hopen
      rw [h.seen p seen hp hcompleted, hcompleted] at hopen
      cases hopen
    cases seen with
    | unarmed =>
      dsimp only at hs
      split at hs
      · rename_i hword
        cases hs
        exact h.complete (by rw [hword.1]; rfl) (.inl ⟨rfl, rfl, h.unarmed hword.1⟩)
      · cases hs
        exact hagain
    | armed =>
      dsimp only at hs
      split at hs
      · rename_i hword
        cases hs
        exact h.complete (by rw [hword.1]; rfl) (.inr ⟨rfl, rfl, h.armed hword.1⟩)
      · cases hs
        exact hagain
    | completedInline | completedQueued =>
      cases hs
      exact hreturn rfl
  | storeQueued =>
    rw [hp] at hs
    cases hs
    have htaken := (h.owes p (by rw [hp]; rfl)).1
    refine (h.store fun _ => htaken).goto (by rw [hp]; rfl) nofun ?_
    intro hopen
    have hopen' : s.node.wakeArmed.completed = false := hopen
    rw [htaken] at hopen'
    cases hopen'
  | storeCompleted wakes =>
    rw [hp] at hs
    cases hs
    refine (h.store h.flag).goto ?_ nofun ?_
    · rw [hp]
      cases wakes <;> rfl
    · intro hopen
      have htrying := h.trying hopen p
      rw [hp] at htrying
      cases htrying
  | returned wakes =>
    rw [hp] at hs
    cases wakes with
    | false => cases hs
    | true =>
      have howes : (s.producer p).owes = true := by
        rw [hp]
        rfl
      cases outcome with
      | direct =>
        cases hs
        exact h.pay howes (Nat.add_assoc _ _ _).symm
      | refused =>
        cases hs
        refine h.goto (by rw [hp]; rfl) nofun ?_
        intro hopen
        rw [(h.owes p howes).1] at hopen
        cases hopen
      | plain | spurious =>
        cases hs
        exact h.pay howes (Nat.add_right_comm _ _ _)
  | reinjecting =>
    rw [hp] at hs
    cases hs
    exact h.pay (by rw [hp]; rfl) (Nat.add_right_comm _ _ _)
  | done =>
    rw [hp] at hs
    cases hs

/-- A node that its waiter has not parked on is completed inline or not at all. -/
theorem Inv.inline_of_before (hw : s.waiter = .before) (hword : s.node.wakeArmed ≠ .unarmed) :
    s.node.wakeArmed = .completedInline := by
  cases hn : s.node.wakeArmed with
  | unarmed => exact absurd hn hword
  | armed => cases hw.symm.trans (h.armed hn)
  | completedInline => rfl
  | completedQueued => cases hw.symm.trans (h.taken hn)

theorem Inv.inline_of_failed {seen : WakeWord} (hw : s.waiter = .failed seen) :
    s.node.wakeArmed = .completedInline ∧ seen = .completedInline := by
  cases hn : s.node.wakeArmed with
  | unarmed => cases hw.symm.trans (h.unarmed hn)
  | armed => cases hw.symm.trans (h.armed hn)
  | completedQueued => cases hw.symm.trans (h.taken hn)
  | completedInline =>
    refine ⟨rfl, ?_⟩
    rcases h.inline hn with hwaiter | hwaiter | hwaiter <;> cases hw.symm.trans hwaiter
    rfl

theorem Inv.park (hs : s.park = some s') : Inv s' := by
  unfold State.park at hs
  cases hw : s.waiter with
  | before =>
    rw [hw] at hs
    dsimp only at hs
    split at hs
    · rename_i hword
      cases hs
      have hopen : s.node.wakeArmed.completed = false := by
        rw [hword]
        rfl
      have hcontra : ∀ {w : WakeWord}, s.node.wakeArmed = w → w ≠ .unarmed → False :=
        fun heq hne => hne (heq.symm.trans hword)
      refine ⟨nofun, fun _ => rfl, nofun, nofun, ?_, ?_, fun _ => h.trying hopen, ?_, h.unique, nofun, ?_⟩
      · exact fun hq => (hcontra (h.flag hq) nofun).elim
      · intro p w hp hcompleted
        have hseen := h.seen p w hp hcompleted
        rw [hseen, hcompleted] at hopen
        cases hopen
      · exact fun p hp => (hcontra (h.owes p hp).1 nofun).elim
      · exact fun hne => (hcontra (h.woken hne).1 nofun).elim
    · rename_i hword
      cases hs
      have hinline := h.inline_of_before hw hword
      rw [hinline]
      refine { h with unarmed := ?_, armed := ?_, inline := fun _ => .inr (.inl rfl), taken := ?_ }
      · exact fun heq => absurd heq hword
      all_goals exact fun heq => absurd (hinline.symm.trans heq) nofun
  | failed seen =>
    rw [hw] at hs
    dsimp only at hs
    have hinline := h.inline_of_failed hw
    split at hs
    · rename_i hor
      rcases hor with hqueued | hqueued
      · exact absurd (hinline.2.symm.trans hqueued) nofun
      · exact absurd (hinline.1.symm.trans (h.flag hqueued)) nofun
    cases hs
    have hcontra : ∀ {w : WakeWord}, s.node.wakeArmed = w → w ≠ .completedInline → False :=
      fun heq hne => hne (heq.symm.trans hinline.1)
    refine { h with unarmed := ?_, armed := ?_, inline := fun _ => .inr (.inr rfl), taken := ?_ }
    all_goals exact fun heq => (hcontra heq nofun).elim
  | parked | inline =>
    rw [hw] at hs
    cases hs

end

theorem step_inv (s : State P) (a : Action P) (s' : State P) (h : Inv s) (hs : step s a = some s') : Inv s' := by
  cases a with
  | park => exact h.park hs
  | wake p outcome => exact h.wake hs

/-! ## The end of a call -/

/-- A producer that takes its steps and has no compare-and-swap fail for no reason. -/
def Finishes (s : State P) (p : P) : Prop :=
  ∃ n s', run step s (List.replicate n (.wake p .plain)) = some s' ∧ (s'.producer p).finished = true

theorem Finishes.of_step (hs : s.wake p .plain = some s') (h : Finishes s' p) : Finishes s p := by
  obtain ⟨n, t, hrun, ht⟩ := h
  refine ⟨n + 1, t, ?_, ht⟩
  rw [List.replicate_succ, run_cons]
  exact ⟨s', hs, hrun⟩

theorem Finishes.of_finished (h : (s.producer p).finished = true) : Finishes s p := ⟨0, s, rfl, h⟩

theorem goto_self : (s.goto p x).producer p = x := update_self _ _ _

theorem finishes_returned (wakes : Bool) (h : s.producer p = .returned wakes) : Finishes s p := by
  cases wakes with
  | false => exact .of_finished (by rw [h]; rfl)
  | true =>
    have hs : s.wake p .plain = some ({ s with queued := s.queued + 1 }.goto p .done) := by simp only [State.wake, h]
    refine .of_step hs (.of_finished ?_)
    rw [goto_self]
    rfl

theorem finishes_storeCompleted (wakes : Bool) (h : s.producer p = .storeCompleted wakes) : Finishes s p := by
  have hs : s.wake p .plain = some ({ s with node.wakeCompleted := true }.goto p (.returned wakes)) := by
    simp only [State.wake, h]
  exact .of_step hs (finishes_returned wakes goto_self)

theorem finishes_storeQueued (h : s.producer p = .storeQueued) : Finishes s p := by
  have hs : s.wake p .plain = some ({ s with node.wakeQueued := true }.goto p (.storeCompleted true)) := by
    simp only [State.wake, h]
  exact .of_step hs (finishes_storeCompleted true goto_self)

/-- A producer that has seen the word that is there leaves the loop. -/
theorem finishes_current (h : s.producer p = .looping s.node.wakeArmed) : Finishes s p := by
  cases hw : s.node.wakeArmed with
  | unarmed =>
    have hs : s.wake p .plain = some ({ s with node.wakeArmed := .completedInline }.goto p (.storeCompleted false)) := by
      simp [State.wake, h, hw]
    exact .of_step hs (finishes_storeCompleted false goto_self)
  | armed =>
    have hs : s.wake p .plain = some ({ s with node.wakeArmed := .completedQueued }.goto p .storeQueued) := by
      simp [State.wake, h, hw]
    exact .of_step hs (finishes_storeQueued goto_self)
  | completedInline | completedQueued =>
    have hs : s.wake p .plain = some (s.goto p (.returned false)) := by simp only [State.wake, h, hw]
    exact .of_step hs (finishes_returned false goto_self)

theorem finishes (s : State P) (p : P) : Finishes s p := by
  cases hp : s.producer p with
  | idle =>
    have hs : s.wake p .plain = some (s.goto p (.looping s.node.wakeArmed)) := by simp only [State.wake, hp]
    exact .of_step hs (finishes_current goto_self)
  | looping seen =>
    by_cases hseen : seen = s.node.wakeArmed
    · exact finishes_current (hp.trans (by rw [hseen]))
    cases seen with
    | unarmed | armed =>
      have hs : s.wake p .plain = some (s.goto p (.looping s.node.wakeArmed)) := by
        simp [State.wake, hp, Ne.symm hseen]
      exact .of_step hs (finishes_current goto_self)
    | completedInline | completedQueued =>
      have hs : s.wake p .plain = some (s.goto p (.returned false)) := by simp only [State.wake, hp]
      exact .of_step hs (finishes_returned false goto_self)
  | storeQueued => exact finishes_storeQueued hp
  | storeCompleted wakes => exact finishes_storeCompleted wakes hp
  | returned wakes => exact finishes_returned wakes hp
  | reinjecting =>
    have hs : s.wake p .plain = some ({ s with queued := s.queued + 1 }.goto p .done) := by simp only [State.wake, hp]
    refine .of_step hs (.of_finished ?_)
    rw [goto_self]
    rfl
  | done => exact .of_finished (by rw [hp]; rfl)

/-! ## The handshake -/

theorem Producer.trying.unfinished (h : x.trying = true) : x.finished = false := by
  cases x <;> first | rfl | cases h

/-- A producer that has returned has left the wait completed. -/
theorem Inv.completed (h : Inv s) (hp : (s.producer p).finished = true) : s.node.wakeArmed.completed = true := by
  cases hw : s.node.wakeArmed.completed with
  | true => rfl
  | false =>
    rw [Producer.trying.unfinished (h.trying hw p)] at hp
    cases hp

/-- A waiter that has parked on a completed node was woken, or one producer is about to wake it. -/
theorem Inv.parked (h : Inv s) (hparked : s.waiter = .parked) (hcompleted : s.node.wakeArmed.completed = true) :
    s.woken = 1 ∨ ∃! p, (s.producer p).owes = true := by
  have htaken : s.node.wakeArmed = .completedQueued := by
    cases hw : s.node.wakeArmed with
    | unarmed | armed =>
      rw [hw] at hcompleted
      cases hcompleted
    | completedQueued => rfl
    | completedInline =>
      rcases h.inline hw with hwaiter | hwaiter | hwaiter <;> rw [hparked] at hwaiter <;> cases hwaiter
  by_cases hzero : s.woken = 0
  · obtain ⟨p, hp⟩ := h.pending htaken hzero
    exact .inr ⟨p, hp, fun q hq => h.unique q p hq hp⟩
  · exact .inl (h.woken hzero).2

/-- **Parking and waking.** In every interleaving of a waiter with any number of producers: the waiter is woken at most
once; it is never woken if it decided not to park, and only if it decided to park; if it has parked on a node that is
completed, it was woken or exactly one producer is about to wake it, so that it was woken exactly once when the producers
that have started have returned; and every producer returns. A wake puts the waiter on a run queue or switches to it. -/
theorem park_wake_handshake (s : State P) (h : Reachable step State.init s) :
    s.queued + s.switched ≤ 1 ∧
    (s.waiter = .inline → s.queued + s.switched = 0) ∧
    (s.queued + s.switched = 1 → s.waiter = .parked) ∧
    (s.waiter = .parked → s.node.wakeArmed.completed = true →
      s.queued + s.switched = 1 ∨ ∃! p, (s.producer p).owes = true) ∧
    (s.waiter = .parked → (∃ p, (s.producer p).finished = true) →
      (∀ p, s.producer p = .idle ∨ (s.producer p).finished = true) → s.queued + s.switched = 1) ∧
    ∀ p, ∃ n s', run step s (List.replicate n (.wake p .plain)) = some s' ∧ (s'.producer p).finished = true := by
  have hinv : Inv s := h.induction init_inv step_inv
  have hparked : s.woken = 1 → s.waiter = .parked :=
    fun hone => hinv.taken (hinv.woken (by rw [hone]; exact Nat.one_ne_zero)).1
  refine ⟨?_, ?_, hparked, hinv.parked, ?_, finishes s⟩
  · by_cases hzero : s.woken = 0
    · exact Nat.le_trans (Nat.le_of_eq hzero) (Nat.zero_le 1)
    · exact Nat.le_of_eq (hinv.woken hzero).2
  · intro hinline
    by_contra hne
    have hwaiter := hparked (hinv.woken hne).2
    rw [hinline] at hwaiter
    cases hwaiter
  · rintro hwaiter ⟨p, hp⟩ hall
    rcases hinv.parked hwaiter (hinv.completed hp) with hone | ⟨q, hq, -⟩
    · exact hone
    -- nobody who owes a wake is idle or has returned
    rcases hall q with hidle | hdone
    · rw [hidle] at hq
      cases hq
    cases hx : s.producer q with
    | returned wakes =>
      cases wakes <;> simp [hx, Producer.owes, Producer.finished] at hq hdone
    | _ => simp [hx, Producer.owes, Producer.finished] at hq hdone

/-- Two producers meet a waiter that has parked: the one that takes the node puts the waiter on a run queue. -/
theorem park_wake_handshake_two : ∃ s : State Bool, s.waiter = .parked ∧ s.queued = 1 ∧ s.queued + s.switched ≤ 1 := by
  obtain ⟨s, hr, hs⟩ := exists_reachable step (State.init : State Bool) (fun s => (s.waiter, s.queued))
    (b := (.parked, 1))
    [.wake true .plain, .park, .wake true .plain, .wake false .plain, .wake true .spurious, .wake false .plain,
      .wake true .plain, .wake true .plain, .wake false .plain, .wake false .plain, .wake false .refused,
      .wake false .plain] (by decide +kernel)
  simp only [Prod.mk.injEq] at hs
  exact ⟨s, hs.1, hs.2, (park_wake_handshake s hr).1⟩

/-! ## The atomic calls -/

/-- A step of a producer in terms of the atomic call: it is the call if it leaves the loop, and nothing otherwise, but that
a wake may be paid. -/
def Atomic (s s' : State P) (p : P) : Prop :=
  if (s.producer p).inLoop = true ∧ (s'.producer p).inLoop = false then
    (s'.node.wakeArmed, (s'.producer p).owes) = s.node.wakeArmed.prepareWake ∧ s'.woken = s.woken
  else s'.node.wakeArmed = s.node.wakeArmed ∧
    s'.woken + (s'.producer p).owes.toNat = s.woken + (s.producer p).owes.toNat

theorem Atomic.stay (hp : (s.producer p).inLoop = true → x.inLoop = true) (hword : s'.node.wakeArmed = s.node.wakeArmed)
    (hpaid : s'.woken + x.owes.toNat = s.woken + (s.producer p).owes.toNat) : Atomic s (s'.goto p x) p := by
  rw [Atomic, goto_self, if_neg]
  · exact ⟨hword, hpaid⟩
  · rintro ⟨hloop, hleft⟩
    rw [hp hloop] at hleft
    cases hleft

theorem Atomic.leave {seen : WakeWord} (hp : s.producer p = .looping seen) (hx : x.inLoop = false)
    (hcall : (s'.node.wakeArmed, x.owes) = s.node.wakeArmed.prepareWake) (hwoken : s'.woken = s.woken) :
    Atomic s (s'.goto p x) p := by
  rw [Atomic, goto_self, hp, if_pos ⟨rfl, hx⟩]
  exact ⟨hcall, hwoken⟩

theorem Inv.wake_atomic (h : Inv s) {outcome : Outcome} (hs : s.wake p outcome = some s') : Atomic s s' p := by
  unfold State.wake at hs
  cases hp : s.producer p with
  | idle =>
    rw [hp] at hs
    cases hs
    exact .stay (fun _ => rfl) rfl (by rw [hp]; rfl)
  | looping seen =>
    rw [hp] at hs
    have hagain : Atomic s (s.goto p (.looping s.node.wakeArmed)) p := .stay (fun _ => rfl) rfl (by rw [hp]; rfl)
    cases seen with
    | unarmed =>
      dsimp only at hs
      split at hs <;> cases hs
      · rename_i hword
        exact .leave hp rfl (by rw [hword.1]; rfl) rfl
      · exact hagain
    | armed =>
      dsimp only at hs
      split at hs <;> cases hs
      · rename_i hword
        exact .leave hp rfl (by rw [hword.1]; rfl) rfl
      · exact hagain
    | completedInline | completedQueued =>
      -- the word that was seen completed is the word that is there
      cases hs
      exact .leave hp rfl (by rw [h.seen p _ hp rfl]; rfl) rfl
  | storeQueued =>
    rw [hp] at hs
    cases hs
    exact .stay (by simp [hp, Producer.inLoop]) rfl (by rw [hp]; rfl)
  | storeCompleted wakes =>
    rw [hp] at hs
    cases hs
    exact .stay (by simp [hp, Producer.inLoop]) rfl (by rw [hp]; cases wakes <;> rfl)
  | returned wakes =>
    rw [hp] at hs
    cases wakes with
    | false => cases hs
    | true =>
      have hout : (s.producer p).inLoop = true → Producer.done.inLoop = true := by simp [hp, Producer.inLoop]
      cases outcome with
      | direct =>
        cases hs
        exact .stay hout rfl (by rw [hp]; exact (Nat.add_assoc _ _ _).symm)
      | refused =>
        cases hs
        exact .stay hout rfl (by rw [hp]; rfl)
      | plain | spurious =>
        cases hs
        exact .stay hout rfl (by rw [hp]; exact Nat.add_right_comm s.queued 1 s.switched)
  | reinjecting =>
    rw [hp] at hs
    cases hs
    exact .stay (by simp [hp, Producer.inLoop]) rfl (by rw [hp]; exact Nat.add_right_comm s.queued 1 s.switched)
  | done =>
    rw [hp] at hs
    cases hs

theorem Inv.park_atomic (h : Inv s) (hs : s.park = some s') :
    if s.waiter = .before then
      s'.node.wakeArmed = s.node.wakeArmed.shouldPark.1 ∧ (s'.waiter = .parked ↔ s.node.wakeArmed.shouldPark.2 = true)
    else s'.waiter = .inline ∧ s'.node = s.node := by
  unfold State.park at hs
  cases hw : s.waiter with
  | before =>
    rw [hw] at hs
    rw [if_pos rfl]
    dsimp only at hs
    split at hs
    · rename_i hword
      cases hs
      rw [hword]
      simp [WakeWord.shouldPark]
    · rename_i hword
      cases hs
      rw [h.inline_of_before hw hword]
      simp [WakeWord.shouldPark]
  | failed seen =>
    rw [hw] at hs
    rw [if_neg (by simp)]
    obtain ⟨hinline, rfl⟩ := h.inline_of_failed hw
    have hflag : ¬ (WakeWord.completedInline = .completedQueued ∨ s.node.wakeQueued = true) := by
      rintro (heq | hqueued)
      · cases heq
      · cases hinline.symm.trans (h.flag hqueued)
    dsimp only at hs
    rw [if_neg hflag] at hs
    cases hs
    exact ⟨rfl, rfl⟩
  | parked | inline =>
    rw [hw] at hs
    cases hs

/-- **The calls are atomic.** In every interleaving a call of `llam_wait_node_prepare_wake` takes effect at the step that
leaves its loop: that step is `prepareWake` on the word, and what it answers is the wake that the producer owes. No other
step of a producer touches the word, and a producer wakes the waiter only by paying what it owes. The call of
`llam_wait_node_should_park` is `shouldPark` at its first step, and a second step answers the same. -/
theorem handshake_calls_atomic (h : Reachable step State.init s) :
    (∀ p outcome s', s.wake p outcome = some s' →
      if (s.producer p).inLoop = true ∧ (s'.producer p).inLoop = false then
        (s'.node.wakeArmed, (s'.producer p).owes) = s.node.wakeArmed.prepareWake ∧ s'.woken = s.woken
      else s'.node.wakeArmed = s.node.wakeArmed ∧
        s'.woken + (s'.producer p).owes.toNat = s.woken + (s.producer p).owes.toNat) ∧
    ∀ s', s.park = some s' →
      if s.waiter = .before then
        s'.node.wakeArmed = s.node.wakeArmed.shouldPark.1 ∧ (s'.waiter = .parked ↔ s.node.wakeArmed.shouldPark.2 = true)
      else s'.waiter = .inline ∧ s'.node = s.node := by
  have hinv : Inv s := h.induction init_inv step_inv
  exact ⟨fun p outcome s' => hinv.wake_atomic, fun s' => hinv.park_atomic⟩

/-- A producer that saw the node unarmed goes round and takes the armed node. -/
theorem handshake_calls_atomic_armed : ∃ s s' : State Bool, s.node.wakeArmed = .armed ∧ s.wake true .plain = some s' ∧
    (s'.node.wakeArmed, (s'.producer true).owes) = s.node.wakeArmed.prepareWake := by
  obtain ⟨s, hr, hs⟩ := exists_reachable step (State.init : State Bool)
    (fun s => (s.node.wakeArmed, s.producer true, (s.wake true .plain).map (State.producer · true)))
    (b := (.armed, .looping .armed, some .storeQueued)) [.wake true .plain, .park, .wake true .plain] (by decide +kernel)
  simp only [Prod.mk.injEq, Option.map_eq_some_iff] at hs
  obtain ⟨hword, hp, s', hs', hp'⟩ := hs
  have hatomic := (handshake_calls_atomic hr).1 _ _ _ hs'
  rw [hp, hp'] at hatomic
  exact ⟨s, s', hword, hs', by rw [hp']; exact hatomic.1⟩

end system

/-- A producer that hands its processor to the waiter does not put it on a run queue. -/
theorem handoff_not_queued : ¬ ∀ s : State Bool, Reachable step State.init s → s.waiter = .parked →
    (∃ p, (s.producer p).finished = true) → (∀ p, s.producer p = .idle ∨ (s.producer p).finished = true) →
      s.queued = 1 := by
  intro hall
  obtain ⟨s, hr, hs⟩ := exists_reachable step (State.init : State Bool)
    (fun s => (s.waiter, s.producer true, s.producer false, s.queued)) (b := (.parked, .done, .idle, 0))
    [.park, .wake true .plain, .wake true .plain, .wake true .plain, .wake true .plain, .wake true .direct]
    (by decide +kernel)
  simp only [Prod.mk.injEq] at hs
  obtain ⟨hparked, htrue, hfalse, hqueued⟩ := hs
  have hone := hall s hr hparked ⟨true, by rw [htrue]; rfl⟩ ?_
  · rw [hqueued] at hone
    cases hone
  · intro p
    cases p with
    | true => exact .inr (by rw [htrue]; rfl)
    | false => exact .inl hfalse

end Llam.Wait
