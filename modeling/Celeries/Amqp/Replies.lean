import Celeries.Amqp.Backend
set_option autoImplicit false

/-!
What every run of `RpcBackend` (`src/amqp/backend.ts`) keeps, whatever the order of its events.
Replies reach the backend only through `onMessage`, keyed by their `correlationId`. Two facts tie
the get calls to the promise map: a get still waiting has its key's record pending, and every
reply held, in a record or in a get's settlement, answers the key it is held for. From them, a
reply the consumer delivers fulfils every get waiting on its key, and no get is ever fulfilled
with another task's reply.
-/

namespace Celeries.Amqp
open Containers

/-- The invariant of the promise map and the get calls of a backend. -/
structure Replies (promises : PromiseMap Message) (gets : List GetCall) : Prop where
  waiting : ∀ g ∈ gets, g.entry = none → promises.records g.taskId = some .pending
  records : ∀ k t m, promises.records k = some (.settled t (.fulfilled m)) → m.correlationId = k
  fulfilled : ∀ g ∈ gets, ∀ t m, g.entry = some (t, .fulfilled m) → m.correlationId = g.taskId

section Gets
variable {gets : List GetCall} {k : String} {now : Nat} {g : GetCall}

theorem mem_settleGets {o : Outcome Message} (hg : g ∈ settleGets gets k now o) :
    g ∈ gets ∨ g.taskId = k ∧ g.entry = some (now, o) := by
  obtain ⟨g₀, h₀, rfl⟩ := List.mem_map.1 hg
  split
  · rename_i hc
    simp only [Bool.and_eq_true, decide_eq_true_eq] at hc
    exact .inr ⟨hc.1, rfl⟩
  · exact .inl h₀

theorem settleGets_waiting {o : Outcome Message} (hg : g ∈ settleGets gets k now o)
    (hw : g.entry = none) : g ∈ gets ∧ g.taskId ≠ k := by
  obtain ⟨g₀, h₀, rfl⟩ := List.mem_map.1 hg
  by_cases hc : (g₀.taskId = k && g₀.entry.isNone) = true
  · rw [if_pos hc] at hw
    cases hw
  · rw [if_neg hc] at hw ⊢
    exact ⟨h₀, fun he => hc (by simp [he, hw])⟩

theorem mem_rejectGets {e : Reason} (hg : g ∈ rejectGets gets now e) :
    g ∈ gets ∧ g.entry ≠ none ∨ g.entry = some (now, .rejected e) := by
  obtain ⟨g₀, h₀, rfl⟩ := List.mem_map.1 hg
  split
  · exact .inr rfl
  · rename_i hc
    exact .inl ⟨h₀, by simpa using hc⟩

end Gets

namespace Replies
variable {promises : PromiseMap Message} {gets : List GetCall}

theorem empty : Replies (.empty DEFAULT_TIMEOUT) [] :=
  ⟨fun _ h => (List.not_mem_nil _ h).elim, fun _ _ _ h => Option.noConfusion h,
    fun _ h => (List.not_mem_nil _ h).elim⟩

theorem get (h : Replies promises gets) (taskId : String) (timeout : Option Nat) (now : Nat) :
    Replies (promises.get taskId).1
      (gets ++ [⟨taskId, timeout, now, (promises.get taskId).2.settlement⟩]) := by
  have hrec : ∀ k t m, (promises.get taskId).1.records k = some (.settled t (.fulfilled m)) →
      m.correlationId = k := fun k t m hk => by
    rcases promises.get_records taskId k with he | ⟨-, he⟩ <;> rw [he] at hk
    · exact h.records k t m hk
    · cases hk
  have hself := promises.get_records_self taskId
  refine ⟨fun g hg hw => ?_, hrec, fun g hg t m he => ?_⟩
  · rcases List.mem_append.1 hg with hg | hg
    · rcases promises.get_records taskId g.taskId with he | ⟨-, he⟩ <;> rw [he]
      exact h.waiting g hg hw
    · obtain rfl := List.mem_singleton.1 hg
      cases hr : (promises.get taskId).2 <;> simp_all [Record.settlement]
  · rcases List.mem_append.1 hg with hg | hg
    · exact h.fulfilled g hg t m he
    · obtain rfl := List.mem_singleton.1 hg
      cases hr : (promises.get taskId).2 <;> simp only [hr, Record.settlement] at he hself
      · cases he
      · cases he
        exact hrec _ _ _ hself

/-- `onMessage(message)` and `delete(taskId)`: the gets waiting on the key settle with an outcome
that, if a reply, answers the key, and the map changes the key's record only. -/
theorem settle (h : Replies promises gets) {k : String} {now : Nat} {o : Outcome Message}
    (ho : ∀ m, o = .fulfilled m → m.correlationId = k) {promises' : PromiseMap Message}
    (hk : ∀ k', k' ≠ k → promises'.records k' = promises.records k')
    (hrec : ∀ t m, promises'.records k = some (.settled t (.fulfilled m)) → m.correlationId = k) :
    Replies promises' (if promises.isPending k then settleGets gets k now o else gets) := by
  refine ⟨fun g hg hw => ?_, fun k' t m hm => ?_, fun g hg t m he => ?_⟩
  · have hne : g ∈ gets ∧ g.taskId ≠ k := by
      split at hg
      · exact settleGets_waiting hg hw
      · refine ⟨hg, fun he => ?_⟩
        have := (promises.isPending_iff k).2 (he ▸ h.waiting g hg hw)
        simp_all
    rw [hk _ hne.2]
    exact h.waiting g hne.1 hw
  · by_cases hk' : k' = k
    · subst hk'
      exact hrec t m hm
    · rw [hk k' hk'] at hm
      exact h.records k' t m hm
  · split at hg
    · rcases mem_settleGets hg with hg | ⟨rfl, hge⟩
      · exact h.fulfilled g hg t m he
      · rw [hge] at he
        cases he
        exact ho m rfl
    · exact h.fulfilled g hg t m he

theorem rejectAll (h : Replies promises gets) (e : Reason) (now : Nat) :
    Replies (promises.rejectAll e now) (rejectGets gets now e) := by
  refine ⟨fun g hg hw => ?_, fun k t m hk => ?_, fun g hg t m he => ?_⟩
  · rcases mem_rejectGets hg with ⟨-, hne⟩ | hge
    · exact absurd hw hne
    · simp [hge] at hw
  · rw [PromiseMap.rejectAll_records] at hk
    split at hk
    · cases hk
    · exact h.records k t m hk
  · rcases mem_rejectGets hg with ⟨hg, -⟩ | hge
    · exact h.fulfilled g hg t m he
    · simp [hge] at he

theorem expire (h : Replies promises gets) (k : String) (now : Nat) :
    Replies (promises.expire k now) gets := by
  refine ⟨fun g hg hw => ?_, fun k' t m hk => ?_, h.fulfilled⟩
  · have hp := h.waiting g hg hw
    rcases promises.expire_records k now g.taskId with he | ⟨-, t, o, ho⟩
    · rw [he, hp]
    · simp [hp] at ho
  · rcases promises.expire_records k now k' with he | ⟨he, -⟩ <;> rw [he] at hk
    · exact h.records k' t m hk
    · cases hk

end Replies

namespace RpcBackend

theorem step_replies (s : RpcBackend) (h : Replies s.promises s.gets) (e : Event) :
    Replies (s.step e).promises (s.step e).gets := by
  cases e with
  | get taskId timeout => exact h.get taskId timeout s.clock
  | delivery message =>
    simp only [step]
    split
    · cases message with
      | none => exact h.rejectAll _ _
      | some m =>
        refine h.settle (fun _ he => by cases he; rfl) (fun k' hk' => if_neg hk') fun t m' hm => ?_
        simp [onMessage, PromiseMap.resolve, PromiseMap.settle] at hm
        rw [← hm.2]
    · exact h
  | delete taskId =>
    exact h.settle (fun _ he => by cases he) (fun k' hk' => if_neg hk') fun t m hm => by
      simp [step, delete, PromiseMap.delete] at hm
  | tick ms => exact h
  | expire taskId => exact h.expire taskId s.clock
  | endRejectAll =>
    simp only [step]
    split
    · exact h.rejectAll _ _
    · exact h
  | endCancel =>
    simp only [step]
    split <;> exact h

theorem run_replies (events : List Event) (s : RpcBackend) (h : Replies s.promises s.gets) :
    Replies (s.run events).promises (s.run events).gets := by
  induction events generalizing s with
  | nil => exact h
  | cons e events ih => exact ih (s.step e) (s.step_replies h e)

theorem new_run_replies (events : List Event) :
    Replies (RpcBackend.new.run events).promises (RpcBackend.new.run events).gets :=
  run_replies events _ Replies.empty

theorem step_delivery_waiting (s : RpcBackend) (h : Replies s.promises s.gets)
    (hc : s.consuming = true) (i : Nat) (g : GetCall) (hg : s.gets[i]? = some g)
    (hw : g.entry = none) (m : Message) (hm : m.correlationId = g.taskId) :
    (s.step (.delivery (some m))).gets[i]? = some { g with entry := some (s.clock, .fulfilled m) } := by
  have hp : s.promises.isPending g.taskId = true :=
    (s.promises.isPending_iff _).2 (h.waiting g (List.getElem?_mem hg) hw)
  simp [step, hc, onMessage, hp, settleGets, hg, hm, hw]

/-- Whatever ran before, a reply the consumer delivers fulfils every get waiting on its task. -/
theorem delivery_fulfils_waiting_gets (events : List Event) (i : Nat) (g : GetCall) (m : Message)
    (hc : (RpcBackend.new.run events).consuming = true)
    (hg : (RpcBackend.new.run events).gets[i]? = some g) (hw : g.entry = none)
    (hm : m.correlationId = g.taskId) :
    ((RpcBackend.new.run events).step (.delivery (some m))).gets[i]? =
      some { g with entry := some ((RpcBackend.new.run events).clock, .fulfilled m) } :=
  step_delivery_waiting _ (new_run_replies events) hc i g hg hw m hm

theorem delivery_fulfils_waiting_gets_after_tick :
    (RpcBackend.new.run [.get "a" none, .tick 3]).consuming = true ∧
      (RpcBackend.new.run [.get "a" none, .tick 3]).gets[0]? = some ⟨"a", none, 0, none⟩ ∧
      ((RpcBackend.new.run [.get "a" none, .tick 3]).step (.delivery (some lateReply))).gets[0]? =
        some ⟨"a", none, 0, some (3, .fulfilled lateReply)⟩ :=
  ⟨rfl, rfl, delivery_fulfils_waiting_gets [.get "a" none, .tick 3] 0 ⟨"a", none, 0, none⟩ lateReply
    rfl rfl rfl rfl⟩

end RpcBackend

variable {R : Type} (parseMessage : Message → Except Reason R)

theorem GetCall.result_fulfilled {g : GetCall} {t : Nat} {r : R}
    (h : g.result parseMessage = some (t, .fulfilled r)) :
    ∃ t' m, g.entry = some (t', .fulfilled m) ∧ parseMessage m = .ok r := by
  unfold GetCall.result at h
  split at h
  · cases h
  · cases h
  · rename_i t' raw he
    split at h
    · cases h
    · rename_i result hp
      rw [createTimeoutPromise_settled] at h
      cases h
      exact ⟨t', raw, he, hp⟩

namespace RpcBackend

/-- The events that leave the record of `k` as it is: all but a `delete` or an expiry of `k`,
and another reply to `k`. -/
def keeps (k : String) : Event → Bool
  | .delivery (some m) => m.correlationId != k
  | .delete taskId | .expire taskId => taskId != k
  | _ => true

theorem step_keeps_settled (s : RpcBackend) (k : String) (t : Nat) (o : Outcome Message)
    (hk : s.promises.records k = some (.settled t o)) (e : Event) (he : keeps k e = true) :
    (s.step e).promises.records k = some (.settled t o) := by
  cases e with
  | get taskId timeout =>
    rcases s.promises.get_records taskId k with h | ⟨h, -⟩ <;> rw [hk] at h
    · exact h
    · cases h
  | delivery message =>
    simp only [step]
    split
    · cases message with
      | none => simp [onMessage, rejectAll, hk]
      | some m =>
        simp only [keeps, bne_iff_ne, ne_eq] at he
        simp [onMessage, PromiseMap.resolve, PromiseMap.settle, Ne.symm he, hk]
    · exact hk
  | delete taskId =>
    simp only [keeps, bne_iff_ne, ne_eq] at he
    simp [step, delete, PromiseMap.delete, Ne.symm he, hk]
  | tick ms => exact hk
  | expire taskId =>
    simp only [keeps, bne_iff_ne, ne_eq] at he
    exact (s.promises.expire_records_of_ne s.clock (Ne.symm he)).trans hk
  | endRejectAll =>
    simp only [step]
    split
    · simp [rejectAll, hk]
    · exact hk
  | endCancel =>
    simp only [step]
    split <;> exact hk

theorem run_keeps_settled (events : List Event) (s : RpcBackend) (k : String) (t : Nat)
    (o : Outcome Message) (hk : s.promises.records k = some (.settled t o))
    (he : ∀ e ∈ events, keeps k e = true) :
    (s.run events).promises.records k = some (.settled t o) := by
  induction events generalizing s with
  | nil => exact hk
  | cons e events ih =>
    exact ih (s.step e) (s.step_keeps_settled k t o hk e (he e (.head _)))
      fun e' h => he e' (.tail _ h)

/-- A reply delivered before its get is kept: whatever runs between them but a `delete` or an
expiry of its key or another reply to it, the get takes it at once. -/
theorem get_after_reply_takes_it (s : RpcBackend) (m : Message) (events : List Event)
    (timeout : Option Nat) (hc : s.consuming = true)
    (he : ∀ e ∈ events, keeps m.correlationId e = true) :
    (((s.step (.delivery (some m))).run events).step (.get m.correlationId timeout)).gets.getLast? =
      some ⟨m.correlationId, timeout, ((s.step (.delivery (some m))).run events).clock,
        some (s.clock, .fulfilled m)⟩ := by
  have hk : (s.step (.delivery (some m))).promises.records m.correlationId =
      some (.settled s.clock (.fulfilled m)) := by
    simp [step, hc, onMessage, PromiseMap.resolve, PromiseMap.settle]
  have hr := run_keeps_settled events _ _ _ _ hk he
  generalize (s.step (.delivery (some m))).run events = s' at hr ⊢
  simp [step, get, PromiseMap.get_snd_of_records hr, Record.settlement]

theorem get_after_reply_takes_it_after_other_reply :
    (RpcBackend.new.consuming = true ∧
      ∀ e ∈ [Event.tick 2, .delivery (some ⟨"b", "{}"⟩), .get "b" none], keeps "a" e = true) ∧
    (((RpcBackend.new.step (.delivery (some lateReply))).run
        [.tick 2, .delivery (some ⟨"b", "{}"⟩), .get "b" none]).step (.get "a" none)).gets.getLast? =
      some ⟨"a", none, 2, some (0, .fulfilled lateReply)⟩ :=
  ⟨⟨rfl, by decide⟩, get_after_reply_takes_it RpcBackend.new lateReply
    [.tick 2, .delivery (some ⟨"b", "{}"⟩), .get "b" none] none rfl (by decide)⟩

/-- Whatever ran, a get's promise that fulfils holds the parse of a reply to its own task. -/
theorem get_result_answers_own_task (events : List Event) (g : GetCall) (t : Nat) (r : R)
    (hg : g ∈ (RpcBackend.new.run events).gets) (hr : g.result parseMessage = some (t, .fulfilled r)) :
    ∃ m : Message, m.correlationId = g.taskId ∧ parseMessage m = .ok r := by
  obtain ⟨t', m, he, hp⟩ := GetCall.result_fulfilled parseMessage hr
  exact ⟨m, (new_run_replies events).fulfilled g hg t' m he, hp⟩

theorem get_result_answers_own_task_sample :
    (⟨"a", none, 0, some (0, .fulfilled lateReply)⟩ : GetCall) ∈
        (RpcBackend.new.run [.get "a" none, .delivery (some lateReply)]).gets ∧
      GetCall.result (fun m => .ok m.content) ⟨"a", none, 0, some (0, .fulfilled lateReply)⟩ =
        some (0, .fulfilled "{}") ∧
      ∃ m : Message, m.correlationId = "a" ∧ (.ok m.content : Except Reason String) = .ok "{}" :=
  ⟨by decide, rfl, get_result_answers_own_task (fun m => .ok m.content)
    [.get "a" none, .delivery (some lateReply)] ⟨"a", none, 0, some (0, .fulfilled lateReply)⟩ 0 "{}"
    (by decide) rfl⟩

end RpcBackend
end Celeries.Amqp
