import Llam.Lib.Ring
import Llam.Broker.Revocation

/-!
# The channels of the broker

The broker with the history of its channels: what was sent to every channel and what was received from it (`Logged`). The
ring in a slot is a queue (`Channel.queue`), and a step of the broker sends, receives or leaves the queues alone
(`ChannelMove`, `exec_channels`), so that what was received is always what was sent first (`broker_channel_contract`).
-/

namespace Llam.Broker

open Llam.Lib Function Control

variable {n : Nat}

/-! ## Queues -/

namespace Channel

/-- The messages in the channel, the oldest first. -/
def queue (c : Channel) : List (List UInt8) := Ring.contents c.messages c.capacity c.head c.count

structure Ok (c : Channel) : Prop where
  head : c.head < c.capacity
  tail : c.tail = (c.head + c.count) % c.capacity
  count : c.count ≤ c.capacity
  lengths : ∀ m ∈ c.queue, m.length ≤ Control.channelMessageBytes

variable {c : Channel}

theorem queue_eq_nil : c.queue = [] ↔ c.count = 0 := by
  rw [← List.length_eq_zero_iff, queue, Ring.contents_length]

theorem queue_send (h : c.Ok) (hroom : c.count < c.capacity) (bytes : List UInt8) : ({ c with
      messages := update c.messages c.tail bytes
      tail := (c.tail + 1) % c.capacity
      count := c.count + 1 } : Channel).queue = c.queue ++ [bytes] := by
  rw [h.tail]
  exact Ring.contents_write bytes hroom

theorem Ok.send (h : c.Ok) (hroom : c.count < c.capacity) {bytes : List UInt8}
    (hlength : bytes.length ≤ Control.channelMessageBytes) : ({ c with
      messages := update c.messages c.tail bytes
      tail := (c.tail + 1) % c.capacity
      count := c.count + 1 } : Channel).Ok := by
  refine ⟨h.head, ?_, hroom, fun m hm => ?_⟩
  · rw [h.tail, Nat.mod_add_mod, Nat.add_assoc]
  · rw [queue_send h hroom] at hm
    rcases List.mem_append.mp hm with hm | hm
    · exact h.lengths m hm
    · rw [List.mem_singleton.mp hm]
      exact hlength

theorem queue_recv (h : c.Ok) (hsome : c.count ≠ 0) : c.queue = c.messages c.head :: ({ c with
      messages := update c.messages c.head []
      head := (c.head + 1) % c.capacity
      count := c.count - 1 } : Channel).queue := by
  have hcount : c.count = c.count - 1 + 1 := by omega
  have hlt : c.count - 1 < c.capacity := by
    have := h.count
    omega
  unfold queue
  rw [Ring.contents_behind c.messages [] h.head hlt, hcount]
  exact Ring.contents_advance c.messages h.head

theorem Ok.recv (h : c.Ok) (hsome : c.count ≠ 0) : ({ c with
      messages := update c.messages c.head []
      head := (c.head + 1) % c.capacity
      count := c.count - 1 } : Channel).Ok := by
  refine ⟨Nat.mod_lt _ (Nat.zero_lt_of_lt h.head), ?_, ?_, fun m hm => ?_⟩
  · dsimp only
    rw [h.tail, Nat.mod_add_mod]
    congr 1
    omega
  · have := h.count
    dsimp only
    omega
  · refine h.lengths m ?_
    rw [queue_recv h hsome]
    exact List.mem_cons_of_mem _ hm

end Channel

/-! ## Histories -/

/-- The messages that the step sends to the channel `id`. -/
def sentBy (a : Action n) (out : Option Outcome) (id : UInt64) : List (List UInt8) :=
  match a, out with
  | .op _ (.channelSend t bytes) _ _, some ⟨.ok _, _, _⟩ => if t.slot = id then [bytes] else []
  | _, _ => []

/-- The messages that the step receives from the channel `id`: as many bytes as the result says. -/
def receivedBy (a : Action n) (out : Option Outcome) (id : UInt64) : List (List UInt8) :=
  match a, out with
  | .op _ (.channelRecv t _) _ _, some ⟨.ok length, _, output⟩ =>
    if t.slot = id then [output.take length.toNat] else []
  | _, _ => []

/-- The broker, and what was sent to and received from the channels. -/
structure Logged (n : Nat) where
  state : State n
  sent : UInt64 → List (List UInt8)
  received : UInt64 → List (List UInt8)

def Logged.init (n : Nat) (runtimeId : UInt64) (key : Key) : Logged n :=
  ⟨.init n runtimeId key, fun _ => [], fun _ => []⟩

def Logged.step (w : Logged n) (a : Action n) : Option (Logged n) :=
  (w.state.exec a).map fun r =>
    ⟨r.1, fun id => w.sent id ++ sentBy a r.2 id, fun id => w.received id ++ receivedBy a r.2 id⟩

/-! ## Steps -/

/-- One list at `id`, and none elsewhere. -/
def only (id : UInt64) (messages : List (List UInt8)) (j : UInt64) : List (List UInt8) := if id = j then messages else []

theorem only_self (id : UInt64) (messages : List (List UInt8)) : only id messages id = messages := if_pos rfl

theorem only_of_ne {id j : UInt64} (h : id ≠ j) (messages : List (List UInt8)) : only id messages j = [] := if_neg h

theorem only_nil (id : UInt64) : only id [] = fun _ => [] := funext fun _ => ite_self _

/-- The channel is open, or messages are left in it. -/
def Slot.inService (x : Slot Channel) : Prop := x.active = true ∧ (x.body.closed = false ∨ x.body.queue ≠ [])

/-- The step may remove the channel although it is in service. -/
def Action.removes (a : Action n) (x : Slot Channel) : Prop :=
  match a with
  | .reclaim f subject => f = .CHANNEL ∧ x.subjectId = subject
  | .rollback t => t.family = Family.CHANNEL.code ∧ x.named t = true
  | _ => False

/-- **What a step does** to the channels, with what it sends and receives; `removes` says which channels in service it may
remove. -/
inductive ChannelMove (b b' : Control) (removes : Slot Channel → Prop) : (sent received : UInt64 → List (List UInt8)) → Prop
  /-- Channels are left alone, or removed. -/
  | quiet (hslots : ∀ i, (b'.channels i).active = true → (b.channels i).active = true ∧
        (b'.channels i).id = (b.channels i).id ∧ (b'.channels i).body = (b.channels i).body)
      (hremoved : ∀ i, (b.channels i).inService → (b'.channels i).active = false → removes (b.channels i))
      (hnext : (b.next .CHANNEL).toNat ≤ (b'.next .CHANNEL).toNat) : ChannelMove b b' removes (fun _ => []) (fun _ => [])
  /-- A new channel. -/
  | create (i : Fin slotCount) (x : Slot Channel) (hfree : ¬ (b.channels i).inService)
      (hchannels : b'.channels = update b.channels i x) (hid : x.id = b.next .CHANNEL) (hok : x.body.Ok) (hempty : x.body.queue = [])
      (hnext : (b'.next .CHANNEL).toNat = (b.next .CHANNEL).toNat + 1) :
    ChannelMove b b' removes (fun _ => []) (fun _ => [])
  /-- A message is sent or received, or the channel closed. -/
  | write (i : Fin slotCount) (x : Channel) (sent received : List (List UInt8))
      (hactive : (b.channels i).active = true)
      (hchannels : b'.channels = update b.channels i { b.channels i with body := x })
      (hok : x.Ok) (hqueue : (b.channels i).body.queue ++ sent = received ++ x.queue)
      (hnext : b'.next .CHANNEL = b.next .CHANNEL) :
    ChannelMove b b' removes (only (b.channels i).id sent) (only (b.channels i).id received)

section Moves

variable {b b' : Control} {f : Family} {i : Fin slotCount} {subject : UInt64} {load : Nat → UInt64} {t : Token} {env : Env}
  {o : Op} {removes : Slot Channel → Prop} {sent received : UInt64 → List (List UInt8)}

theorem Control.channels_setSlot (b : Control) (i : Fin slotCount) (x : Slot Channel) :
    (b.setSlot .CHANNEL i x).channels = update b.channels i x := by
  funext j
  rcases eq_or_ne j i with rfl | hj
  · rw [update_self]
    exact setSlot_self b .CHANNEL j x
  · rw [update_of_ne hj]
    exact setSlot_of_ne fun h => hj h.2

theorem Control.channels_setSlot_of_ne {x : Slot (Body f)} (h : f ≠ .CHANNEL) :
    (b.setSlot f i x).channels = b.channels := by
  funext j
  exact setSlot_of_ne fun hj => h hj.1.symm

namespace ChannelMove

theorem same (hchannels : b'.channels = b.channels) (hnext : b'.next .CHANNEL = b.next .CHANNEL) :
    ChannelMove b b' removes (fun _ => []) (fun _ => []) := by
  refine .quiet (fun i hactive => ?_) (fun i hservice hnone => ?_) (hnext ▸ Nat.le_refl _)
  · rw [hchannels] at hactive ⊢
    exact ⟨hactive, rfl, rfl⟩
  · rw [hchannels, hservice.1] at hnone
    cases hnone

theorem header {x : Slot Channel} (hchannels : b'.channels = update b.channels i x)
    (hx : x.active = true → (b.channels i).active = true ∧ x.id = (b.channels i).id ∧ x.body = (b.channels i).body)
    (hremoved : (b.channels i).inService → x.active = false → removes (b.channels i))
    (hnext : (b.next .CHANNEL).toNat ≤ (b'.next .CHANNEL).toNat) : ChannelMove b b' removes (fun _ => []) (fun _ => []) := by
  refine .quiet (fun j hactive => ?_) (fun j hservice hnone => ?_) hnext
  · rw [hchannels] at hactive ⊢
    rcases eq_or_ne j i with rfl | hj
    · rw [update_self] at hactive ⊢
      exact hx hactive
    · rw [update_of_ne hj] at hactive ⊢
      exact ⟨hactive, rfl, rfl⟩
  · rw [hchannels] at hnone
    rcases eq_or_ne j i with rfl | hj
    · rw [update_self] at hnone
      exact hremoved hservice hnone
    · rw [update_of_ne hj, hservice.1] at hnone
      cases hnone

theorem epoch (h : ChannelMove b b' removes sent received) (epoch : UInt64) :
    ChannelMove b { b' with epoch := epoch } removes sent received := by
  cases h with
  | quiet hslots hremoved hnext => exact .quiet hslots hremoved hnext
  | create i x hfree hchannels hid hok hempty hnext => exact .create i x hfree hchannels hid hok hempty hnext
  | write i x sent received hactive hchannels hok hqueue hnext =>
    exact .write i x sent received hactive hchannels hok hqueue hnext

end ChannelMove

theorem toNat_allot_next (hnext : Control.validateNextObjectId (b.next f) = .ok ()) (i : Fin slotCount) (subject : UInt64)
    (rights : Rights) (body : Body f) : ((b.allot f i subject rights body).next f).toNat = (b.next f).toNat + 1 := by
  rw [allot_next, toNat_add_one (validateNextObjectId_ok hnext)]

theorem effect_channels {token : Option Token} (h : b.Effect subject load o b' token) (hwrites : o.writes ≠ some .CHANNEL)
    (hcreates : ∀ rights, o.creates ≠ some (.CHANNEL, rights)) : ChannelMove b b' removes (fun _ => []) (fun _ => []) := by
  cases h with
  | same | attenuate => exact .same rfl rfl
  | @rotate f i t t' rights k hpresents hk hfound hrights hsome hlast htoken htask =>
    by_cases hf : f = .CHANNEL
    · subst hf
      refine .header (channels_setSlot b i _) (fun hactive => ?_) (fun hservice hnone => ?_) (Nat.le_refl _)
      · exact ⟨hactive, rfl, rfl⟩
      · cases hservice.1.symm.trans hnone
    · exact .same (channels_setSlot_of_ne hf) rfl
  | @create f i t' rights body hcreates' hfree hnext htoken htask =>
    have hf : f ≠ .CHANNEL := by
      rintro rfl
      exact hcreates _ hcreates'
    exact .same (channels_setSlot_of_ne hf) (update_of_ne hf.symm ..)
  | @burn f i rights body hcreates' hfree hnext htask =>
    have hf : f ≠ .CHANNEL := by
      rintro rfl
      exact hcreates _ hcreates'
    refine .same ?_ (update_of_ne hf.symm ..)
    rw [Control.clearSlot, channels_setSlot_of_ne hf]
    exact channels_setSlot_of_ne hf
  | @body f i t x hpresents hfound hwrites' htask =>
    have hf : f ≠ .CHANNEL := by
      rintro rfl
      exact hwrites hwrites'
    exact .same (channels_setSlot_of_ne hf) rfl
  | clear | detach => exact .same (channels_setSlot_of_ne (by simp)) rfl

theorem not_inService_of_reusable {x : Slot Channel} (h : Control.reusable .CHANNEL x = true) : ¬ x.inService := by
  rintro ⟨hactive, hservice⟩
  simp only [Control.reusable, hactive, Bool.not_true, Bool.false_or, Bool.and_eq_true, beq_iff_eq] at h
  rcases hservice with hopen | hqueue
  · cases h.1.symm.trans hopen
  · exact hqueue (Channel.queue_eq_nil.mpr h.2)

theorem createChannel_move {capacity : Nat} {rights : Rights} :
    ChannelMove b (b.createChannel subject load capacity rights env).1 removes (fun _ => []) (fun _ => []) := by
  unfold Control.createChannel
  split
  · exact .same rfl rfl
  rename_i hcapacity
  split
  · exact .same rfl rfl
  · exact .same rfl rfl
  unfold Control.createObject
  split
  · exact .same rfl rfl
  rename_i i hi
  have hfree := not_inService_of_reusable (first_some hi)
  split
  · exact .same rfl rfl
  rename_i hnext
  split
  · refine .header (i := i) (x := .cleared .CHANNEL) ?_ (by intros; contradiction) (fun hservice => absurd hservice hfree) (Nat.le_of_lt ?_)
    · exact (congrArg (update · i _) (channels_setSlot b i _)).trans (update_idem ..)
    · have hadd := toNat_allot_next hnext i subject rights (⟨fun _ => [], capacity, 0, 0, 0, false⟩ : Channel)
      exact Nat.lt_of_lt_of_eq (Nat.lt_succ_self _) hadd.symm
  · refine .create i _ hfree (channels_setSlot b i _) rfl ⟨?_, ?_, Nat.zero_le _, by intros; contradiction⟩ rfl
      (toNat_allot_next hnext i subject rights _)
    · exact Nat.pos_of_ne_zero fun hzero => hcapacity (.inl hzero)
    · exact (Nat.zero_mod capacity).symm

/-- The channels that are in use are rings. -/
def Control.ChannelsOk (b : Control) : Prop := ∀ i, (b.channels i).active = true → (b.channels i).body.Ok

variable {overtakes : Nat → Nat}

variable (hok : b.ChannelsOk)

include hok

theorem channelSend_move {bytes : List UInt8} : ChannelMove b (b.channelSend subject load t bytes env).1 removes
      (sentBy (n := n) (.op subject (.channelSend t bytes) overtakes env)
        (some (b.channelSend subject load t bytes env).2)) (fun _ => []) := by
  unfold Control.channelSend
  split
  · exact .same rfl rfl
  split
  · exact .same rfl rfl
  · exact .same rfl rfl
  rename_i i _ hi
  dsimp only
  split
  · exact .same rfl rfl
  split
  · exact .same rfl rfl
  rename_i hroom
  obtain ⟨hactive, hid, -⟩ := Slot.named_iff.mp (findObject_ok hi).1.named
  have hring := hok i hactive
  have hroom := Nat.lt_of_not_le hroom
  have hsent : sentBy (n := n) (.op subject (.channelSend t bytes) overtakes env) (some (.done 0)) =
      only (b.channels i).id [bytes] := by
    have hid : (b.channels i).id = t.slot := hid
    rw [hid]
    rfl
  rw [hsent, ← only_nil (b.channels i).id]
  exact .write i _ [bytes] [] hactive (channels_setSlot b i _) (hring.send hroom (by omega))
    (Channel.queue_send hring hroom bytes).symm rfl

theorem channelRecv_move {capacity : UInt64} :
    ChannelMove b (b.channelRecv subject load t capacity env).1 removes (fun _ => [])
      (receivedBy (n := n) (.op subject (.channelRecv t capacity) overtakes env)
        (some (b.channelRecv subject load t capacity env).2)) := by
  unfold Control.channelRecv
  split
  · exact .same rfl rfl
  split
  · exact .same rfl rfl
  · exact .same rfl rfl
  rename_i i _ hi
  dsimp only
  split
  · exact .same rfl rfl
  rename_i hsome
  split
  · exact .same rfl rfl
  obtain ⟨hactive, hid, -⟩ := Slot.named_iff.mp (findObject_ok hi).1.named
  have hring := hok i hactive
  have hqueue := Channel.queue_recv hring hsome
  generalize hm : (b.channels i).body.messages (b.channels i).body.head = m at hqueue ⊢
  have hreceived : receivedBy (n := n) (.op subject (.channelRecv t capacity) overtakes env)
      (some (.read m capacity.toNat)) = only (b.channels i).id [m] := by
    -- messages are short, so that their lengths are words
    have hlength : m.length ≤ Control.channelMessageBytes := hring.lengths m (hqueue ▸ List.mem_cons_self)
    have hword : (UInt64.ofNat m.length).toNat = m.length := by
      exact Nat.mod_eq_of_lt (Nat.lt_of_le_of_lt hlength (by decide))
    have hid : (b.channels i).id = t.slot := hid
    funext j
    rw [hid]
    simp only [receivedBy, Outcome.read, only, hword, List.take_left']
  rw [hreceived, ← only_nil (b.channels i).id]
  exact .write i _ [] [m] hactive (channels_setSlot b i _) (hring.recv hsome) ((List.append_nil _).trans hqueue) rfl

theorem channelClose_move : ChannelMove b (b.channelClose subject load t env).1 removes (fun _ => []) (fun _ => []) := by
  unfold Control.channelClose
  split
  · exact .same rfl rfl
  · exact .same rfl rfl
  rename_i i _ hi
  obtain ⟨hactive, -, -⟩ := Slot.named_iff.mp (findObject_ok hi).1.named
  have hring := hok i hactive
  rw [← only_nil (b.channels i).id]
  exact .write i _ [] [] hactive (channels_setSlot b i _) ⟨hring.head, hring.tail, hring.count, hring.lengths⟩
    (List.append_nil _) rfl

theorem perform_move (o : Op) : ChannelMove b (b.perform subject load o env).1 removes
      (sentBy (n := n) (.op subject o overtakes env) (some (b.perform subject load o env).2))
      (receivedBy (n := n) (.op subject o overtakes env) (some (b.perform subject load o env).2)) := by
  have heffect : b.Effect subject load o (b.perform subject load o env).1 (b.perform subject load o env).2.token :=
    perform_effect o
  cases o with
  | createChannel capacity rights => exact createChannel_move
  | channelSend t bytes => exact channelSend_move hok
  | channelRecv t capacity => exact channelRecv_move hok
  | channelClose t => exact channelClose_move hok
  | validate | attenuate | revoke | registerBuffer | readBuffer | writeBuffer | registerHandle | readHandle | writeHandle
  | driveAllowed | joinTask | detachTask => exact effect_channels heffect nofun nofun

end Moves

section Steps

variable {s : State n} {k : Fin n} {c : Call} {removes : Slot Channel → Prop}

variable {b : Control}

theorem ChannelMove.task (i : Fin slotCount) (x : Slot Task) :
    ChannelMove b (b.setSlot .TASK i x) removes (fun _ => []) (fun _ => []) := .same (channels_setSlot_of_ne nofun) rfl

theorem reserved_move {i : Fin slotCount} {subject arg0 : UInt64} {kind : TaskKind} {rights : Rights} :
    ChannelMove b (b.reserved i subject kind arg0 rights) removes (fun _ => []) (fun _ => []) := by
  have hchannels : (b.setSlot .TASK i ⟨b.next .TASK, 1, rights, subject, true,
      ⟨none, .SPAWNED, some kind, arg0, 0, none⟩⟩).channels = b.channels := channels_setSlot_of_ne (by decide)
  have hnext : update b.next .TASK (b.next .TASK + 1) .CHANNEL = b.next .CHANNEL :=
    update_of_ne (by decide) ..
  exact .same hchannels hnext

theorem reclaim_move (f : Family) (subject : UInt64) :
    ChannelMove b (b.reclaimSubject f subject) (Action.reclaim (n := n) f subject).removes (fun _ => []) (fun _ => []) := by
  have hnext : (b.reclaimSubject f subject).next = b.next := by
    unfold Control.reclaimSubject
    split <;> rfl
  have hslot : ∀ i, (b.reclaimSubject f subject).channels i = b.channels i ∨ f = .CHANNEL ∧
      (b.channels i).subjectId = subject ∧ (b.reclaimSubject f subject).channels i = .cleared .CHANNEL := fun i =>
    (reclaimSubject_cases .CHANNEL i subject).imp (fun h => h) fun ⟨hf, _, hsubject, hcleared⟩ =>
      ⟨hf.symm, hsubject, hcleared⟩
  refine .quiet (fun i hactive => ?_) (fun i hservice hnone => ?_) (hnext ▸ Nat.le_refl _)
  · rcases hslot i with hsame | ⟨-, -, hcleared⟩
    · rw [hsame] at hactive ⊢
      exact ⟨hactive, rfl, rfl⟩
    · rw [hcleared] at hactive
      cases hactive
  · rcases hslot i with hsame | ⟨hf, hsubject, -⟩
    · rw [hsame, hservice.1] at hnone
      cases hnone
    · exact ⟨hf, hsubject⟩

theorem rollback_move (t : Token) :
    ChannelMove b (b.rollbackToken t) (Action.rollback (n := n) t).removes (fun _ => []) (fun _ => []) := by
  unfold Control.rollbackToken
  split
  · exact .same rfl rfl
  rename_i f hf
  split
  · exact .same rfl rfl
  rename_i i hi
  by_cases hf' : f = .CHANNEL
  · subst hf'
    exact .header (channels_setSlot b i _) nofun
      (fun _ _ => ⟨Family.ofCode_eq_some.mp hf, first_some hi⟩) (Nat.le_refl _)
  · exact .same (channels_setSlot_of_ne hf') rfl

theorem fiberStep_move {p : Nat} {y : Fiber} (slept : Option Errno) :
    ChannelMove s.control (s.fiberStep p y slept).control removes (fun _ => []) (fun _ => []) := by
  unfold State.fiberStep
  split
  · exact .task y.index _
  · dsimp only
    split
    · exact .task y.index _
    · exact .same rfl rfl
    · exact .same rfl rfl
  · exact .task y.index _

theorem exec_channels (hok : s.control.ChannelsOk) {a : Action n} {r : State n × Option Outcome} (h : s.exec a = some r) :
    ChannelMove s.control r.1.control a.removes (sentBy a r.2) (receivedBy a r.2) := by
  obtain ⟨s', out⟩ := r
  cases State.exec_executes h with
  | op => exact (perform_move hok _).epoch _
  | reserved => exact reserved_move
  | @unissued _ c => exact (ChannelMove.task c.index (.cleared .TASK)).epoch _
  | unstarted => exact .task _ (.cleared .TASK)
  | computed =>
    rw [setTaskState_setResult]
    exact .task _ _
  | stored => exact .task _ _
  | fiber => exact fiberStep_move _
  | reclaimed => exact reclaim_move _ _
  | rolledBack => exact rollback_move _
  | refused | issued | started | revokedAll => exact .same rfl rfl

end Steps

/-! ## Runs -/

/-- What was sent to a channel is what was received from it and what is in its queue. -/
structure Logged.Ok (w : Logged n) : Prop where
  inv : Inv w.state
  rings : w.state.control.ChannelsOk
  live : ∀ i, (w.state.control.channels i).active = true → w.sent (w.state.control.channels i).id =
    w.received (w.state.control.channels i).id ++ (w.state.control.channels i).body.queue
  ordered : ∀ id, w.received id <+: w.sent id
  fresh : ∀ id : UInt64, (w.state.control.next .CHANNEL).toNat ≤ id.toNat → w.sent id = [] ∧ w.received id = []

section Runs

variable {w : Logged n} {s' : State n} {sent received : UInt64 → List (List UInt8)}

theorem ChannelMove.follow {removes : Slot Channel → Prop}
    (h : ChannelMove w.state.control s'.control removes sent received) (hok : w.Ok) (hinv : Inv s') :
    Logged.Ok ⟨s', fun id => w.sent id ++ sent id, fun id => w.received id ++ received id⟩ := by
  have hnumber : ∀ i, (w.state.control.channels i).active = true →
      (w.state.control.channels i).id.toNat < (w.state.control.next .CHANNEL).toNat := fun i hactive =>
    hok.inv.registry.slot .CHANNEL i _ (Slot.grant_of_active hactive)
  cases h with
  | quiet hslots hremoved hnext =>
    simp only [List.append_nil]
    refine ⟨hinv, fun i hactive => ?_, fun i hactive => ?_, hok.ordered, fun id hid => hok.fresh id (Nat.le_trans hnext hid)⟩
    · obtain ⟨hactive, -, hbody⟩ := hslots i hactive
      exact hbody ▸ hok.rings i hactive
    · obtain ⟨hactive, hid, hbody⟩ := hslots i hactive
      rw [hid, hbody]
      exact hok.live i hactive
  | create i x hfree hchannels hid hring hempty hnext =>
    simp only [List.append_nil]
    refine ⟨hinv, fun j hactive => ?_, fun j hactive => ?_, hok.ordered, fun id hid => ?_⟩
    rotate_left 2
    · dsimp only at hid
      exact hok.fresh id (by omega)
    · rw [hchannels] at hactive ⊢
      rcases eq_or_ne j i with rfl | hne
      · rw [update_self]
        exact hring
      · rw [update_of_ne hne] at hactive ⊢
        exact hok.rings j hactive
    · rw [hchannels] at hactive ⊢
      rcases eq_or_ne j i with rfl | hne
      · rw [update_self, hid, hempty]
        obtain ⟨hsent, hreceived⟩ := hok.fresh (w.state.control.next .CHANNEL) (Nat.le_refl _)
        rw [hsent, hreceived]
        rfl
      · rw [update_of_ne hne] at hactive ⊢
        exact hok.live j hactive
  | write i x sent₁ received₁ hactive hchannels hring hqueue hnext =>
    have hlive := hok.live i hactive
    refine ⟨hinv, fun j hj => ?_, fun j hj => ?_, fun id => ?_, fun id hid => ?_⟩
    · rw [hchannels] at hj ⊢
      rcases eq_or_ne j i with rfl | hne
      · rw [update_self]
        exact hring
      · rw [update_of_ne hne] at hj ⊢
        exact hok.rings j hj
    · dsimp only at hj ⊢
      rw [hchannels] at hj ⊢
      rcases eq_or_ne j i with rfl | hne
      · rw [update_self]
        rw [only_self, only_self, hlive, List.append_assoc, hqueue, List.append_assoc]
      rw [update_of_ne hne] at hj ⊢
      -- another slot has another channel
      have hid : (w.state.control.channels i).id ≠ (w.state.control.channels j).id := fun heq =>
        hne (hok.inv.registry.unique .CHANNEL j i _ _ (Slot.grant_of_active hj) (Slot.grant_of_active hactive)
          (congrArg UInt64.toNat heq.symm))
      rw [only_of_ne hid, only_of_ne hid, List.append_nil, List.append_nil]
      exact hok.live j hj
    · dsimp only
      by_cases hid : (w.state.control.channels i).id = id
      · subst hid
        rw [only_self, only_self, hlive, List.append_assoc, hqueue, ← List.append_assoc]
        exact List.prefix_append _ _
      · rw [only_of_ne hid, only_of_ne hid, List.append_nil, List.append_nil]
        exact hok.ordered id
    · dsimp only at hid ⊢
      rw [hnext] at hid
      have hne : (w.state.control.channels i).id ≠ id := fun heq => Nat.not_lt_of_le hid (heq ▸ hnumber i hactive)
      rw [only_of_ne hne, only_of_ne hne, List.append_nil, List.append_nil]
      exact hok.fresh id hid

theorem ChannelMove.kept {b b' : Control} {removes : Slot Channel → Prop} (h : ChannelMove b b' removes sent received)
    {i : Fin slotCount} (hservice : (b.channels i).inService) :
    (b'.channels i).active = true ∧ (b'.channels i).id = (b.channels i).id ∨ removes (b.channels i) := by
  cases h with
  | quiet hslots hremoved hnext =>
    cases hactive : (b'.channels i).active with
    | true => exact .inl ⟨rfl, (hslots i hactive).2.1⟩
    | false => exact .inr (hremoved i hservice hactive)
  | create j x hfree hchannels hid hring hempty hnext =>
    have hne : i ≠ j := by
      rintro rfl
      exact hfree hservice
    rw [hchannels, update_of_ne hne]
    exact .inl ⟨hservice.1, rfl⟩
  | write j x sent₁ received₁ hactive hchannels hring hqueue hnext =>
    rw [hchannels]
    rcases eq_or_ne i j with rfl | hne
    · rw [update_self]
      exact .inl ⟨hservice.1, rfl⟩
    · rw [update_of_ne hne]
      exact .inl ⟨hservice.1, rfl⟩

theorem Logged.step_ok (w : Logged n) (a : Action n) (w' : Logged n) (hok : w.Ok) (h : w.step a = some w') : w'.Ok := by
  obtain ⟨r, hr, rfl⟩ := Option.map_eq_some_iff.mp h
  have hkeeps := exec_keeps hok.inv hr
  exact (exec_channels hok.rings hr).follow hok ⟨hkeeps.changes.ok hok.inv.registry, hkeeps.tasks⟩

theorem Logged.reachable_ok {runtimeId : UInt64} {key : Key} (h : Reachable Logged.step (.init n runtimeId key) w) : w.Ok :=
  h.induction ⟨init_inv runtimeId key, nofun, nofun, fun _ => List.prefix_rfl, fun _ _ => ⟨rfl, rfl⟩⟩ Logged.step_ok

end Runs

/-! ## The contract -/

section Contract

variable {b : Control} {subject : UInt64} {load : Nat → UInt64} {t : Token} {env : Env} {i : Fin slotCount}

variable {m : List UInt8} {rest : List (List UInt8)}

theorem Channel.Ok.front {c : Channel} (h : c.Ok) (hqueue : c.queue = m :: rest) :
    c.count ≠ 0 ∧ c.messages c.head = m ∧ ({ c with
      messages := update c.messages c.head []
      head := (c.head + 1) % c.capacity
      count := c.count - 1 } : Channel).queue = rest := by
  have hsome : c.count ≠ 0 := fun hzero => by
    rw [Channel.queue_eq_nil.mpr hzero] at hqueue
    cases hqueue
  rw [Channel.queue_recv h hsome] at hqueue
  obtain ⟨hm, hrest⟩ := List.cons.inj hqueue
  exact ⟨hsome, hm, hrest⟩

theorem channelRecv_small (hok : b.ChannelsOk) {capacity : UInt64} (hcapacity : capacity ≠ 0) (hrefused : env.refused = none)
    (hfind : b.findObject .CHANNEL subject (load 0) t .RECV = .ok i)
    (hqueue : (b.channels i).body.queue = m :: rest) (hsmall : capacity.toNat < m.length) :
    b.channelRecv subject load t capacity env = (b, .failClear capacity.toNat .EMSGSIZE) := by
  have hactive := (Slot.named_iff.mp (findObject_ok hfind).1.named).1
  obtain ⟨hsome, hm, -⟩ := (hok i hactive).front hqueue
  unfold Control.channelRecv
  rw [if_neg hcapacity, hrefused, hfind]
  dsimp only
  rw [if_neg hsome, hm, if_pos hsmall]

theorem channelRecv_delivers (hok : b.ChannelsOk) {capacity : UInt64} (hcapacity : capacity ≠ 0)
    (hrefused : env.refused = none) (hfind : b.findObject .CHANNEL subject (load 0) t .RECV = .ok i) (hqueue : (b.channels i).body.queue = m :: rest) (hfits : m.length ≤ capacity.toNat) :
    (b.channelRecv subject load t capacity env).2 = .read m capacity.toNat ∧
      ((b.channelRecv subject load t capacity env).1.channels i).body.queue = rest := by
  have hactive := (Slot.named_iff.mp (findObject_ok hfind).1.named).1
  obtain ⟨hsome, hm, hrest⟩ := (hok i hactive).front hqueue
  unfold Control.channelRecv
  rw [if_neg hcapacity, hrefused, hfind]
  dsimp only
  rw [if_neg hsome, hm, if_neg (Nat.not_lt.mpr hfits)]
  refine ⟨rfl, ?_⟩
  rw [Control.setBody, channels_setSlot, update_self]
  exact hrest

theorem channelSend_refused {bytes : List UInt8} (hfind : b.findObject .CHANNEL subject (load 0) t .SEND = .ok i)
    (h : (b.channels i).body.closed = true ∨ (b.channels i).body.capacity ≤ (b.channels i).body.queue.length) :
    b.Failed (b.channelSend subject load t bytes env) := by
  unfold Control.channelSend
  split
  · exact .fail _
  rw [hfind]
  cases env.refused with
  | some e => exact .fail _
  | none =>
    dsimp only
    split
    · exact .fail _
    rename_i hopen
    have hfull : (b.channels i).body.capacity ≤ (b.channels i).body.count := by
      have := h.resolve_left hopen
      rwa [Channel.queue, Ring.contents_length] at this
    rw [if_pos hfull]
    exact .fail _

theorem createChannel_keeps {capacity : Nat} {rights : Rights} (hservice : (b.channels i).inService) :
    (b.createChannel subject load capacity rights env).1.channels i = b.channels i := by
  unfold Control.createChannel
  split
  · rfl
  split
  · rfl
  · rfl
  unfold Control.createObject
  split
  · rfl
  rename_i j hj
  have hne : i ≠ j := by
    rintro rfl
    exact not_inService_of_reusable (first_some hj) hservice
  have hallot : (b.allot .CHANNEL j subject rights (⟨fun _ => [], capacity, 0, 0, 0, false⟩ : Channel)).channels i =
      b.channels i := (congrFun (channels_setSlot b j _) i).trans (update_of_ne hne ..)
  split
  · rfl
  split
  · rw [Control.clearSlot, channels_setSlot, update_of_ne hne, hallot]
  · exact hallot

end Contract

theorem broker_channel_contract {runtimeId : UInt64} {key : Key} {w : Logged n}
    (hw : Reachable Logged.step (.init n runtimeId key) w) :
    (∀ id, w.received id <+: w.sent id) ∧
    (∀ i, (w.state.control.channels i).active = true → w.sent (w.state.control.channels i).id =
      w.received (w.state.control.channels i).id ++ (w.state.control.channels i).body.queue) ∧
    (∀ subject load t capacity env i m rest, capacity ≠ 0 → env.refused = none →
      w.state.control.findObject .CHANNEL subject (load 0) t .RECV = .ok i →
      (w.state.control.channels i).body.queue = m :: rest →
      (capacity.toNat < m.length → w.state.control.perform subject load (.channelRecv t capacity) env =
        (w.state.control, .failClear capacity.toNat .EMSGSIZE)) ∧
      (m.length ≤ capacity.toNat →
        (w.state.control.perform subject load (.channelRecv t capacity) env).2 = .read m capacity.toNat ∧
        ((w.state.control.perform subject load (.channelRecv t capacity) env).1.channels i).body.queue = rest)) ∧
    (∀ subject load t bytes env i, w.state.control.findObject .CHANNEL subject (load 0) t .SEND = .ok i →
      (w.state.control.channels i).body.closed = true ∨
        (w.state.control.channels i).body.capacity ≤ (w.state.control.channels i).body.queue.length →
      w.state.control.Failed (w.state.control.perform subject load (.channelSend t bytes) env)) ∧
    (∀ subject load capacity rights env i, (w.state.control.channels i).inService →
      (w.state.control.perform subject load (.createChannel capacity rights) env).1.channels i =
        w.state.control.channels i) ∧
    ∀ a w', w.step a = some w' → ∀ i, (w.state.control.channels i).inService →
      (w'.state.control.channels i).active = true ∧ (w'.state.control.channels i).id = (w.state.control.channels i).id ∨
        a.removes (w.state.control.channels i) := by
  have hok := Logged.reachable_ok hw
  refine ⟨hok.ordered, hok.live, ?_, ?_, ?_, ?_⟩
  · intro subject load t capacity env i m rest hcapacity hrefused hfind hqueue
    exact ⟨channelRecv_small hok.rings hcapacity hrefused hfind hqueue,
      channelRecv_delivers hok.rings hcapacity hrefused hfind hqueue⟩
  · intro subject load t bytes env i hfind h
    exact channelSend_refused hfind h
  · intro subject load capacity rights env i hservice
    exact createChannel_keeps hservice
  · intro a w' hstep i hservice
    obtain ⟨r, hr, rfl⟩ := Option.map_eq_some_iff.mp hstep
    exact (exec_channels hok.rings hr).kept hservice

set_option maxRecDepth 100000 in
theorem broker_channel_contract_closed : ∃ (w : Logged 1) (t : Token), w.sent 1 = [[1, 2, 3]] ∧ w.received 1 = [] ∧
    (w.state.control.channels 0).body.closed = true ∧
    (w.state.control.perform 7 (fun _ => 1) (.channelRecv t 8) .plain).2 = .read [1, 2, 3] 8 := by
  let create : Op := .createChannel 2 (.SEND ||| .RECV ||| .CLOSE)
  let t := ((State.init 1 1 ⟨1, 2, 3, 4⟩).performOp 7 create (fun _ => 0) .plain).2.token.get (by decide +kernel)
  obtain ⟨w, hw, hf⟩ := exists_reachable Logged.step (.init 1 1 ⟨1, 2, 3, 4⟩)
    (fun w => decide (w.sent 1 = [[1, 2, 3]] ∧ w.received 1 = [] ∧ (w.state.control.channels 0).body.closed = true ∧
      (w.state.control.channels 0).body.queue = [[1, 2, 3]] ∧
      (w.state.control.findObject .CHANNEL 7 1 t .RECV).toOption = some 0))
    [.op 7 create (fun _ => 0) .plain, .op 7 (.channelSend t [1, 2, 3]) (fun _ => 0) .plain,
      .op 7 (.channelClose t) (fun _ => 0) .plain]
    (b := true) (by decide +kernel)
  obtain ⟨hsent, hreceived, hclosed, hqueue, hfound⟩ := decide_eq_true_eq.mp hf
  have hfind : w.state.control.findObject .CHANNEL 7 1 t .RECV = .ok 0 := by
    cases h : w.state.control.findObject .CHANNEL 7 1 t .RECV with
    | error e => simp [h, Except.toOption] at hfound
    | ok i => simpa [h, Except.toOption] using hfound
  have hrecv := (broker_channel_contract hw).2.2.1 7 (fun _ => 1) t 8 .plain 0 [1, 2, 3] [] (by decide) rfl hfind hqueue
  exact ⟨w, t, hsent, hreceived, hclosed, (hrecv.2 (by decide)).1⟩

end Llam.Broker
