import MountShell.Proofs.Task.History

/-!
# What has been woken is polled

A task of a pool that has been spawned or woken since its latest poll began is polled in the next
tick, or in the one under way.  It does not matter when the wake-up comes: between two ticks, or
from within a poll, that of the task itself or of another one, which may come before or after it in
the tick.  Numbers are ready only once, so that no wake-up is counted twice; and a tick polls only
what was ready when it began, so that none makes it go on for longer.

Main statement: `PoolLog.losesNone_run`, in every history of a pool this is so (`LosesNone`).
-/

namespace MountShell.PoolLog

variable {α σ : Type} {b : Behavior α σ} {l : PoolLog α σ}

/-- No number is ready twice, the slots hold the tasks that live, and every task that has been
spawned or woken since its latest poll began is ready or lies ahead in the tick under way. -/
structure Attentive (ahead : List Nat) (l : PoolLog α σ) : Prop where
  nodup : l.pool.ready.Nodup
  /-- A slot holds a task just when the one spawned last under its number has not ended. -/
  living : ∀ id, (l.pool.task? id).isSome = true ↔ Living l.past id
  heard : ∀ id task, l.pool.task? id = some task → Called l.past id → id ∈ l.pool.ready ∨ id ∈ ahead

/-- No wake-up is lost between two ticks, or at any point of the next one. -/
structure LosesNone (b : Behavior α σ) (l : PoolLog α σ) : Prop where
  between : l.Attentive []
  /-- In a tick, before each poll and after the last one. -/
  within : ∀ before ahead, l.pool.ready = before ++ ahead →
    (l.begin.pollAll b before).Attentive ahead
  /-- In a poll, when some of the tasks that it wakes have been woken. -/
  during : ∀ before id ahead task issued, l.pool.ready = before ++ id :: ahead →
    (l.begin.pollAll b before).pool.task? id = some task →
    issued <+: (b.poll id task (l.begin.pollAll b before).state).woken →
    Attentive ahead
      { l.begin.pollAll b before with
        pool := (l.begin.pollAll b before).pool.wakeAll issued
        past := (l.begin.pollAll b before).past ++ .polled id :: issued.map .woken }
  /-- A task that lives and has been spawned or woken is polled next. -/
  next : ∀ id, Living l.past id → Called l.past id → id ∈ l.polledNext b
  /-- A tick polls what is ready when it begins and has a task, in order, whatever is woken during
  the tick. -/
  polled : l.polledNext b = l.pool.ready.filter fun id => (l.pool.task? id).isSome
  /-- These are the tasks that are ready and live. -/
  mem : ∀ id, id ∈ l.polledNext b ↔ id ∈ l.pool.ready ∧ Living l.past id
  once : (l.polledNext b).Nodup
  /-- A tick tells how many tasks it has polled. -/
  tick : l.pool.tick b l.state =
    ((l.polledNext b).length, (l.after b .tick).pool, (l.after b .tick).state)

theorem Sound.attentive {ahead : List Nat} (h : l.Sound ahead) : l.Attentive ahead :=
  ⟨h.nodup, h.living, fun id task htask => h.heard id (by rw [htask]; rfl)⟩

/-- In a poll, tasks are woken one after the other. -/
theorem Sound.during {id : Nat} {ahead : List Nat} (h : l.Sound (id :: ahead))
    (issued : List Nat) :
    Sound ahead { l with
      pool := l.pool.wakeAll issued
      past := l.past ++ .polled id :: issued.map .woken } := by
  have hwoken := TaskPool.Sound.wakeAll (TaskPool.Sound.turn h) issued
  rw [List.append_assoc] at hwoken
  exact hwoken

/-- A tick gives the number of its polls, and does what it does when it is noted down. -/
theorem Sound.tick_eq (h : l.Sound []) (b : Behavior α σ) :
    l.pool.tick b l.state =
      ((l.polledNext b).length, (l.after b .tick).pool, (l.after b .tick).state) := by
  have hnoted := TaskPool.pollAll_noted b l.pool.ready { l.pool with ready := [] } l.state l.past
  have hnumber := TaskPool.pollAll_fst b.noted h.nodup { l.pool with ready := [] }
    (l.state, l.past)
  rw [polledNext_eq h]
  refine hnoted.symm.trans ?_
  rw [hnumber]
  rfl

/-- Whatever is done to a pool, and whatever its tasks do, no wake-up is lost. -/
theorem losesNone_run (b : Behavior α σ) (state : σ) (uses : List (PoolUse α σ)) :
    (run b { state } uses).LosesNone b := by
  have h := sound_run b state uses
  have hpolled := polledNext_eq (b := b) h
  have hmem : ∀ id, id ∈ (run b { state } uses).polledNext b ↔
      id ∈ (run b { state } uses).pool.ready ∧ Living (run b { state } uses).past id := by
    intro id
    rw [hpolled, List.mem_filter, h.living]
  refine ⟨h.attentive, fun before ahead hready => (h.within b hready).attentive, ?_, ?_, hpolled,
    hmem, hpolled ▸ h.nodup.filter _, h.tick_eq b⟩
  · exact fun before id ahead task issued hready _ _ =>
      ((h.within b hready).during issued).attentive
  · intro id hliving hcalled
    have hready := h.heard id ((h.living id).2 hliving) hcalled
    exact (hmem id).2 ⟨hready.resolve_right List.not_mem_nil, hliving⟩

end MountShell.PoolLog
