import Mathlib.Algebra.Order.Ring.Nat
import MulticoreTasks.Proofs.TimerQueues

/-!
# Raising the limits

Limits are looked at in three places: for the priorities of tasks, for those of spawns, and for the
slots of timer queues.  An application that is accepted under some limits is accepted under higher
ones, and its result differs in nothing but the slots:

* `Limits.Raises`        : the second limits allow what the first ones do;
* `WellFormed.raise`     : being well formed is kept;
* `Analysis.Widens`      : two results are the same up to the slots of their timer queues;
* `Limits.toNat_maxPriority_ofPriorityBits` : what a number of priority bits comes to, however many;
* `analyze_widens`       : an accepted application stays so, with wider timer queues.

A bound of no slots is no exception.  It keeps every task from scheduling others, and an application
without such spawns has the same queues under any bound.
-/

namespace MulticoreTasks

/-- The second limits allow what the first ones do. -/
structure Limits.Raises (low high : Limits) : Prop where
  maxPriority : low.maxPriority ≤ high.maxPriority
  timerSlotBound : low.timerSlotBound ≤ high.timerSlotBound

/-- The second result is the first one, except that its timer queues may be wider. -/
structure Analysis.Widens (a wider : Analysis) : Prop where
  others : wider = { a with timerQueues := wider.timerQueues }
  cores_iff : ∀ core, core ∈ wider.timerQueues ↔ core ∈ a.timerQueues
  queue : ∀ (core : Core) (q w : TimerQueue), a.timerQueues[core]? = some q →
    wider.timerQueues[core]? = some w → q.Widens w

/-! ## Priority bits -/

namespace Limits

/-- The highest priority of `bits` bits is `2 ^ bits - 1`, until priorities end. -/
theorem toNat_maxPriority_ofPriorityBits (bits : Nat) :
    (ofPriorityBits bits).maxPriority.toNat = min (2 ^ bits - 1) 255 := by
  have hbyte : (ofPriorityBits bits).maxPriority.toNat = min (levels bits - 1) 255 := by
    have hlt : min (levels bits - 1) 255 < 256 := by omega
    exact Nat.mod_eq_of_lt hlt
  rw [hbyte, levels]
  split
  · rw [Nat.one_shiftLeft]
  · next hmany =>
    have hpow : 2 ^ 32 ≤ 2 ^ bits := Nat.pow_le_pow_right (by omega) (by omega)
    omega

theorem raises_ofPriorityBits {bits more : Nat} (h : bits ≤ more) :
    (ofPriorityBits bits).Raises (ofPriorityBits more) := by
  constructor
  · have hpow : 2 ^ bits ≤ 2 ^ more := Nat.pow_le_pow_right (by omega) h
    rw [UInt8.le_iff_toNat_le, toNat_maxPriority_ofPriorityBits, toNat_maxPriority_ofPriorityBits]
    omega
  · exact UInt8.le_refl _

end Limits

/-! ## Higher limits -/

variable {app : App} {low high : Limits}

theorem App.WellFormed.raise (hw : app.WellFormed low) (h : low.Raises high) :
    app.WellFormed high := by
  refine { hw with programmable := ?_, slotted := ?_ }
  · intro t ht
    obtain ⟨hone, hmax⟩ := hw.programmable t ht
    exact ⟨hone, UInt8.le_trans hmax h.maxPriority⟩
  · intro hzero
    have hle := h.timerSlotBound
    rw [hzero] at hle
    exact hw.slotted (UInt8.le_antisymm hle UInt8.zero_le)

theorem Edge.slots_mono (h : low.Raises high) (e : Edge) : e.slots low ≤ e.slots high := by
  unfold slots
  split
  · exact UInt8.le_refl _
  · exact h.timerSlotBound

/-- All of a result but its timer queues is worked out without the limits. -/
theorem ofApp_eq_with_timerQueues (low high : Limits) (app : App) : Analysis.ofApp high app =
    { Analysis.ofApp low app with timerQueues := (Analysis.ofApp high app).timerQueues } :=
  rfl

theorem widens_ofApp (hw : app.WellFormed low) (h : low.Raises high) :
    (Analysis.ofApp low app).Widens (.ofApp high app) := by
  constructor
  case others => exact ofApp_eq_with_timerQueues low high app
  case cores_iff =>
    intro core
    rw [mem_timerQueues_iff hw, mem_timerQueues_iff (hw.raise h)]
  case queue =>
    intro core q w hq hw'
    obtain ⟨-, rfl⟩ := (timerQueues_eq_some_iff hw).1 hq
    obtain ⟨-, rfl⟩ := (timerQueues_eq_some_iff (hw.raise h)).1 hw'
    exact TimerQueue.widens_ofEdges fun e _ => e.slots_mono h

/-- With the same bound on slots, the results are the same. -/
theorem ofApp_eq_of_timerSlotBound (h : low.timerSlotBound = high.timerSlotBound) :
    Analysis.ofApp low app = .ofApp high app := by
  have hbound : slotBound low app.freeQueues = slotBound high app.freeQueues := by
    funext e
    rw [slotBound, slotBound, h]
  have hqueues : (Analysis.ofApp low app).timerQueues = (Analysis.ofApp high app).timerQueues :=
    congrArg app.timerQueues hbound
  rw [ofApp_eq_with_timerQueues low high app, ← hqueues]

/-- What is accepted under some limits is accepted under higher ones, with the same result up to the
slots of timer queues, and with the same result altogether when the bound on slots is the same.
More priority bits are higher limits. -/
theorem analyze_widens :
    (∀ (app : App) (low high : Limits) (ledger : Ledger) (a : Analysis), app.Reachable →
      low.Raises high → (ledger.settle (analyze low app)).1 = .ok (.ok a) →
      ∃ b, (ledger.settle (analyze high app)).1 = .ok (.ok b) ∧ a.Widens b ∧
        (low.timerSlotBound = high.timerSlotBound → a = b)) ∧
    (∀ bits more : Nat, bits ≤ more →
      (Limits.ofPriorityBits bits).Raises (Limits.ofPriorityBits more)) ∧
    ∀ bits : Nat, (Limits.ofPriorityBits bits).maxPriority.toNat = min (2 ^ bits - 1) 255 := by
  refine ⟨?_, fun _ _ => Limits.raises_ofPriorityBits, Limits.toNat_maxPriority_ofPriorityBits⟩
  intro app low high ledger a h hraises hok
  obtain ⟨hw, rfl⟩ := h.filed.settle_analyze_iff.1 hok
  exact ⟨_, h.filed.settle_analyze_iff.2 ⟨hw.raise hraises, rfl⟩, widens_ofApp hw hraises,
    ofApp_eq_of_timerSlotBound⟩

/-- With two priority bits and one slot the relay is accepted, and so with eight and four. -/
theorem analyze_widens_relay : ∃ b,
    ((∅ : Ledger).settle (analyze ⟨255, 4⟩ Relay.app)).1 = .ok (.ok b) ∧
      (Analysis.ofApp (.ofPriorityBits 2) Relay.app).Widens b := by
  have hlow : ((∅ : Ledger).settle (analyze (.ofPriorityBits 2) Relay.app)).1 =
      .ok (.ok (.ofApp (.ofPriorityBits 2) Relay.app)) := by
    rw [Ledger.settle_analyze, Except.ok.injEq]
    exact analyze_eq_ok_iff.2 ⟨by decide +kernel, by decide +kernel, rfl⟩
  obtain ⟨b, hb, hwidens, -⟩ := analyze_widens.1 Relay.app (.ofPriorityBits 2) ⟨255, 4⟩ ∅ _
    Relay.reachable ⟨by decide, by decide⟩ hlow
  exact ⟨b, hb, hwidens⟩

end MulticoreTasks
