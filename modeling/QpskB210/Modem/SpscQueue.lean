import Mathlib.Logic.Function.Basic
import Mathlib.Data.List.Induction
import QpskB210.Lib.Fifo

/-!
# Modem — SpscQueue

The ring buffer between two threads. `try_push` and `try_pop` are cut at each
load, each store and each end of an access to a slot, and the two threads take
these steps in any order. Whatever the order, the answers of the calls are
those of a queue of `capacity - 1` elements (`Ring.Holds` is the simulation),
and the threads never touch the same slot at the same time.
-/

namespace QpskB210.Modem

open QpskB210.Lib Fifo

variable {T : Type}

/-! ## The threads -/

/-- Where the producer stands in `try_push(item)`. -/
inductive Producer (T : Type) where
  | idle
  /-- `head_` has been read. -/
  | loadedHead (item : T) (curHead nextHead : Nat)
  /-- `tail_` has been read, and the queue is not full. -/
  | hasRoom (item : T) (curHead nextHead : Nat)
  /-- The item is being moved into the slot. -/
  | writing (item : T) (curHead nextHead : Nat)
  /-- The item is in the slot. -/
  | written (item : T) (nextHead : Nat)
deriving DecidableEq, Repr

/-- Where the consumer stands in `try_pop`. -/
inductive Consumer (T : Type) where
  | idle
  /-- `tail_` has been read. -/
  | loadedTail (curTail : Nat)
  /-- `head_` has been read, and the queue is not empty. -/
  | hasItem (curTail : Nat)
  /-- The item is being moved out of the slot. -/
  | reading (curTail : Nat)
  /-- This was in the slot. -/
  | taken (curTail : Nat) (item : Option T)
deriving DecidableEq, Repr

/-- The slot that the producer is at. -/
def Producer.slot? : Producer T → Option Nat
  | .writing _ curHead _ => some curHead
  | _ => none

/-- The slot that the consumer is at. -/
def Consumer.slot? : Consumer T → Option Nat
  | .reading curTail => some curTail
  | _ => none

/-- The queue and its two users. A slot without a whole item (fresh, moved
from, or half written) holds nothing. -/
structure Ring (T : Type) where
  slots : Nat → Option T := fun _ => none
  head : Nat := 0
  tail : Nat := 0
  producer : Producer T := .idle
  consumer : Consumer T := .idle

namespace Ring

variable (capacity : Nat)

/-- The next step of `try_push`, with the answer if it returns one. An idle
producer calls it with `item`. The mutex that comes after the store only wakes
a waiting consumer. -/
def producerStep (item : T) (r : Ring T) : Ring T × Option (Event (Option T)) :=
  match r.producer with
  | .idle =>
    ({ r with producer := .loadedHead item r.head ((r.head + 1) % capacity) }, none)
  | .loadedHead item curHead nextHead =>
    if nextHead = r.tail then ({ r with producer := .idle }, some .full)
    else ({ r with producer := .hasRoom item curHead nextHead }, none)
  | .hasRoom item curHead nextHead =>
    ({ r with
        slots := Function.update r.slots curHead none
        producer := .writing item curHead nextHead }, none)
  | .writing item curHead nextHead =>
    ({ r with
        slots := Function.update r.slots curHead (some item)
        producer := .written item nextHead }, none)
  | .written item nextHead =>
    ({ r with head := nextHead, producer := .idle }, some (.pushed (some item)))

/-- The next step of `try_pop`. -/
def consumerStep (r : Ring T) : Ring T × Option (Event (Option T)) :=
  match r.consumer with
  | .idle => ({ r with consumer := .loadedTail r.tail }, none)
  | .loadedTail curTail =>
    if curTail = r.head then ({ r with consumer := .idle }, some .empty)
    else ({ r with consumer := .hasItem curTail }, none)
  | .hasItem curTail => ({ r with consumer := .reading curTail }, none)
  | .reading curTail =>
    ({ r with
        slots := Function.update r.slots curTail none
        consumer := .taken curTail (r.slots curTail) }, none)
  | .taken curTail item =>
    ({ r with tail := (curTail + 1) % capacity, consumer := .idle }, some (.popped item))

/-- `size`. -/
def size (r : Ring T) : Nat :=
  if r.head ≥ r.tail then r.head - r.tail else capacity - r.tail + r.head

end Ring

/-- Whose turn it is. -/
inductive Turn (T : Type) where
  | producer (item : T)
  | consumer
deriving DecidableEq, Repr

/-- A queue, and what its calls have answered. -/
structure Observed (T : Type) where
  ring : Ring T := {}
  events : List (Event (Option T)) := []

namespace Observed

variable (capacity : Nat)

def turn (s : Observed T) (t : Turn T) : Observed T :=
  let (ring, answer) :=
    match t with
    | .producer item => s.ring.producerStep capacity item
    | .consumer => s.ring.consumerStep capacity
  { ring := ring, events := s.events ++ answer.toList }

/-- The two threads, from the empty queue. -/
def run (turns : List (Turn T)) : Observed T := turns.foldl (turn capacity) {}

end Observed

/-! ## The simulation -/

namespace Ring

variable {capacity : Nat} {r : Ring T} {q : List (Option T)}

/-- What the producer knows is still so: only the consumer can have changed
the queue meanwhile. -/
def ProducerKnows (capacity : Nat) (r : Ring T) (q : List (Option T)) : Prop :=
  match r.producer with
  | .idle => True
  | .loadedHead _ curHead nextHead => curHead = r.head ∧ nextHead = (r.head + 1) % capacity
  | .hasRoom _ curHead nextHead | .writing _ curHead nextHead =>
    curHead = r.head ∧ nextHead = (r.head + 1) % capacity ∧ q.length + 1 < capacity
  | .written item nextHead =>
    nextHead = (r.head + 1) % capacity ∧ q.length + 1 < capacity ∧ r.slots r.head = some item

def ConsumerKnows (r : Ring T) (q : List (Option T)) : Prop :=
  match r.consumer with
  | .idle => True
  | .loadedTail curTail => curTail = r.tail
  | .hasItem curTail | .reading curTail => curTail = r.tail ∧ q ≠ []
  | .taken curTail item => curTail = r.tail ∧ q.head? = some item

/-- One more element does not disturb the consumer. -/
theorem ConsumerKnows.pushed (h : r.ConsumerKnows q) (cell : Option T) :
    r.ConsumerKnows (q ++ [cell]) := by
  unfold ConsumerKnows at h ⊢
  cases hpc : r.consumer with
  | idle => trivial
  | loadedTail curTail =>
      simp only [hpc] at h
      exact h
  | hasItem curTail | reading curTail =>
      simp only [hpc] at h
      exact ⟨h.1, List.append_ne_nil_of_left_ne_nil h.2 _⟩
  | taken curTail item =>
      simp only [hpc] at h
      refine ⟨h.1, ?_⟩
      rw [List.head?_append, h.2]
      rfl

/-- One element less does not disturb the producer. -/
theorem ProducerKnows.popped {cell : Option T} (h : r.ProducerKnows capacity (cell :: q)) :
    r.ProducerKnows capacity q := by
  unfold ProducerKnows at h ⊢
  rw [List.length_cons] at h
  cases hpc : r.producer with
  | idle => trivial
  | loadedHead item curHead nextHead =>
      simp only [hpc] at h
      exact h
  | hasRoom item curHead nextHead | writing item curHead nextHead =>
      simp only [hpc] at h
      exact ⟨h.1, h.2.1, by omega⟩
  | written item nextHead =>
      simp only [hpc] at h
      exact ⟨h.1, by omega, h.2.2⟩

/-- Nor does what happens to a slot that is not at the head. -/
theorem ProducerKnows.moved_from (h : r.ProducerKnows capacity q) {i : Nat} (hi : r.head ≠ i) :
    ProducerKnows capacity { r with slots := Function.update r.slots i none } q := by
  unfold ProducerKnows at h ⊢
  cases hpc : r.producer with
  | written item nextHead =>
      simp only [hpc] at h
      refine ⟨h.1, h.2.1, ?_⟩
      show Function.update r.slots i none r.head = some item
      rw [Function.update_of_ne hi]
      exact h.2.2
  | _ =>
      simp only [hpc] at h
      exact h

/-- The item at the tail has been moved out already. -/
def TailTaken (r : Ring T) : Prop :=
  match r.consumer with
  | .taken .. => True
  | _ => False

/-- The ring holds the elements of the queue, from `tail` on. -/
structure Holds (capacity : Nat) (r : Ring T) (q : List (Option T)) : Prop where
  tail_lt : r.tail < capacity
  head_eq : r.head = (r.tail + q.length) % capacity
  length_lt : q.length < capacity
  slot : ∀ i < q.length, (r.TailTaken → i ≠ 0) →
    q[i]? = some (r.slots ((r.tail + i) % capacity))
  producer : r.ProducerKnows capacity q
  consumer : r.ConsumerKnows q

/-- Indices wrap once at most. -/
theorem mod_eq_ite {n c : Nat} (h : n < 2 * c) : n % c = if n < c then n else n - c := by
  split
  · rename_i hlt
    exact Nat.mod_eq_of_lt hlt
  · rw [Nat.mod_eq_sub_mod (by omega)]
    exact Nat.mod_eq_of_lt (by omega)

/-- Less than a turn apart, slots differ. -/
theorem slot_ne {t c i j : Nat} (ht : t < c) (hi : i < c) (hj : j < c) (hne : i ≠ j) :
    (t + i) % c ≠ (t + j) % c := by
  rw [mod_eq_ite (by omega), mod_eq_ite (by omega)]
  split <;> split <;> omega

theorem Holds.initial (hcapacity : 1 ≤ capacity) : Holds capacity ({} : Ring T) [] where
  tail_lt := hcapacity
  head_eq := (Nat.zero_mod capacity).symm
  length_lt := hcapacity
  slot := fun _ hi => absurd hi (Nat.not_lt_zero _)
  producer := trivial
  consumer := trivial

/-- The head is one step before the tail exactly when the queue is full. -/
theorem Holds.next_eq_tail_iff (h : Holds capacity r q) :
    (r.head + 1) % capacity = r.tail ↔ q.length + 1 = capacity := by
  have htail := h.tail_lt
  have hlen := h.length_lt
  have hhead : r.head < capacity := by
    rw [h.head_eq]
    exact Nat.mod_lt _ (by omega)
  have heq := h.head_eq
  rw [mod_eq_ite (by omega)] at heq
  rw [mod_eq_ite (by omega)]
  split <;> split at heq <;> omega

theorem Holds.tail_eq_head_iff (h : Holds capacity r q) : r.tail = r.head ↔ q = [] := by
  have htail := h.tail_lt
  have hlen := h.length_lt
  have heq := h.head_eq
  rw [mod_eq_ite (by omega)] at heq
  rw [← List.length_eq_zero_iff]
  split at heq <;> omega

/-- `size` is exact, whoever asks between two calls. -/
theorem Holds.size_eq (h : Holds capacity r q) : r.size capacity = q.length := by
  have htail := h.tail_lt
  have hlen := h.length_lt
  have heq := h.head_eq
  rw [mod_eq_ite (by omega)] at heq
  unfold size
  split <;> split at heq <;> omega

theorem Holds.head_ne (h : Holds capacity r q) {i : Nat} (hi : i < q.length) :
    (r.tail + i) % capacity ≠ r.head := by
  have hlen := h.length_lt
  rw [h.head_eq]
  exact slot_ne h.tail_lt (by omega) hlen (by omega)

theorem Holds.tail_mod (h : Holds capacity r q) : (r.tail + 0) % capacity = r.tail :=
  Nat.mod_eq_of_lt h.tail_lt

/-- The producer may do what it likes with the slot at the head. -/
theorem Holds.slot_update_head (h : Holds capacity r q) (cell : Option T) (i : Nat)
    (hi : i < q.length) (htaken : r.TailTaken → i ≠ 0) :
    q[i]? = some (Function.update r.slots r.head cell ((r.tail + i) % capacity)) := by
  rw [Function.update_of_ne (h.head_ne hi)]
  exact h.slot i hi htaken

/-- The consumer may move the item out of the slot at the tail. -/
theorem Holds.slot_update_tail (h : Holds capacity r q) (hheld : ¬ r.TailTaken) {i : Nat}
    (hi : i < q.length) (hne : i ≠ 0) :
    q[i]? = some (Function.update r.slots r.tail none ((r.tail + i) % capacity)) := by
  have hlen := h.length_lt
  have hother : (r.tail + i) % capacity ≠ r.tail := by
    have hslots := slot_ne h.tail_lt (by omega : i < capacity) (by omega : 0 < capacity) hne
    rwa [h.tail_mod] at hslots
  rw [Function.update_of_ne hother]
  exact h.slot i hi fun htaken => absurd htaken hheld

/-- With the tail one slot on, the rest of the queue is there. -/
theorem Holds.advance {cell : Option T} (h : Holds capacity r (cell :: q)) :
    Holds capacity { r with tail := (r.tail + 1) % capacity, consumer := .idle } q := by
  have hlen := h.length_lt
  rw [List.length_cons] at hlen
  constructor
  · exact Nat.mod_lt _ (by omega)
  · show r.head = ((r.tail + 1) % capacity + q.length) % capacity
    rw [h.head_eq, Nat.mod_add_mod, List.length_cons, Nat.add_right_comm, Nat.add_assoc]
  · omega
  · intro i hi _
    have hnext := h.slot (i + 1) (by rw [List.length_cons]; omega) (fun _ => Nat.succ_ne_zero i)
    show q[i]? = some (r.slots (((r.tail + 1) % capacity + i) % capacity))
    rw [Nat.mod_add_mod, Nat.add_assoc, Nat.add_comm 1]
    rwa [List.getElem?_cons_succ] at hnext
  · exact h.producer.popped
  · trivial

/-- Each step of `try_push` answers as a queue does, if it answers. -/
theorem Holds.producerStep (h : Holds capacity r q) (item : T) :
    ∃ q', StepOrStay (capacity - 1) q (r.producerStep capacity item).2 q' ∧
      Holds capacity (r.producerStep capacity item).1 q' := by
  have hknows := h.producer
  unfold ProducerKnows at hknows
  unfold Ring.producerStep
  cases hpc : r.producer with
  | idle => exact ⟨q, rfl, { h with producer := ⟨rfl, rfl⟩ }⟩
  | loadedHead item curHead nextHead =>
      simp only [hpc] at hknows
      obtain ⟨rfl, rfl⟩ := hknows
      have hlen := h.length_lt
      dsimp only
      split
      · rename_i hfull
        have hcount := h.next_eq_tail_iff.mp hfull
        exact ⟨q, .full (by omega), { h with producer := trivial }⟩
      · rename_i hroom
        have hcount := mt h.next_eq_tail_iff.mpr hroom
        exact ⟨q, rfl, { h with producer := ⟨rfl, rfl, by omega⟩ }⟩
  | hasRoom item curHead nextHead =>
      simp only [hpc] at hknows
      obtain ⟨rfl, hnext, hroom⟩ := hknows
      exact ⟨q, rfl, { h with
        slot := h.slot_update_head none
        producer := ⟨rfl, hnext, hroom⟩ }⟩
  | writing item curHead nextHead =>
      simp only [hpc] at hknows
      obtain ⟨rfl, hnext, hroom⟩ := hknows
      exact ⟨q, rfl, { h with
        slot := h.slot_update_head (some item)
        producer := ⟨hnext, hroom, Function.update_self ..⟩ }⟩
  | written item nextHead =>
      simp only [hpc] at hknows
      obtain ⟨rfl, hroom, hitem⟩ := hknows
      refine ⟨q ++ [some item], .pushed _ (by omega), ?_⟩
      constructor
      · exact h.tail_lt
      · show (r.head + 1) % capacity = (r.tail + (q ++ [some item]).length) % capacity
        rw [h.head_eq, Nat.mod_add_mod, List.length_append, List.length_singleton, Nat.add_assoc]
      · rw [List.length_append, List.length_singleton]
        exact hroom
      · intro i hi htaken
        rw [List.length_append, List.length_singleton] at hi
        rcases Nat.lt_or_ge i q.length with hold | hnew
        · rw [List.getElem?_append_left hold]
          exact h.slot i hold htaken
        · obtain rfl : i = q.length := by omega
          show (q ++ [some item])[q.length]? = some (r.slots ((r.tail + q.length) % capacity))
          rw [List.getElem?_concat_length, ← h.head_eq, hitem]
      · trivial
      · exact h.consumer.pushed (some item)

/-- Each step of `try_pop` does. -/
theorem Holds.consumerStep (h : Holds capacity r q) :
    ∃ q', StepOrStay (capacity - 1) q (r.consumerStep capacity).2 q' ∧
      Holds capacity (r.consumerStep capacity).1 q' := by
  have hknows := h.consumer
  have hslot := h.slot
  unfold ConsumerKnows at hknows
  unfold TailTaken at hslot
  unfold Ring.consumerStep
  cases hpc : r.consumer with
  | idle =>
      simp only [hpc] at hslot
      exact ⟨q, rfl, { h with slot := hslot, consumer := rfl }⟩
  | loadedTail curTail =>
      simp only [hpc] at hknows hslot
      subst hknows
      dsimp only
      split
      · rename_i hempty
        obtain rfl := h.tail_eq_head_iff.mp hempty
        exact ⟨[], .empty, { h with slot := hslot, consumer := trivial }⟩
      · rename_i hitem
        have hne := mt h.tail_eq_head_iff.mpr hitem
        exact ⟨q, rfl, { h with slot := hslot, consumer := ⟨rfl, hne⟩ }⟩
  | hasItem curTail =>
      simp only [hpc] at hknows hslot
      exact ⟨q, rfl, { h with slot := hslot, consumer := hknows }⟩
  | reading curTail =>
      have hheld : ¬ r.TailTaken := by
        unfold TailTaken
        rw [hpc]
        exact id
      simp only [hpc] at hknows hslot
      obtain ⟨rfl, hne⟩ := hknows
      have hpos : 0 < q.length := List.length_pos_iff.mpr hne
      have hfirst := hslot 0 hpos (fun hf => hf.elim)
      rw [h.tail_mod] at hfirst
      refine ⟨q, rfl, { h with slot := ?_, producer := ?_, consumer := ?_ }⟩
      · intro i hi hlater
        exact h.slot_update_tail hheld hi (hlater trivial)
      · -- the producer has written into another slot
        have hhead : r.head ≠ r.tail := by
          have hne := h.head_ne hpos
          rw [h.tail_mod] at hne
          exact hne.symm
        exact h.producer.moved_from hhead
      · exact ⟨rfl, by rw [List.head?_eq_getElem?, hfirst]⟩
  | taken curTail item =>
      simp only [hpc] at hknows
      obtain ⟨rfl, hfirst⟩ := hknows
      obtain ⟨rest, rfl⟩ : ∃ rest, q = item :: rest := by
        cases q with
        | nil => cases hfirst
        | cons cell rest =>
            rw [List.head?_cons, Option.some.injEq] at hfirst
            exact ⟨rest, by rw [hfirst]⟩
      exact ⟨rest, .popped item rest, h.advance⟩

/-- What is pushed is whole. -/
theorem isSome_of_pushed {item : T} {cell : Option T}
    (h : (r.producerStep capacity item).2 = some (.pushed cell)) : cell.isSome := by
  unfold Ring.producerStep at h
  cases hpc : r.producer with
  | loadedHead item curHead nextHead =>
      simp only [hpc] at h
      split at h <;> cases h
  | written item nextHead =>
      simp only [hpc] at h
      cases h
      rfl
  | _ =>
      simp only [hpc] at h
      cases h

theorem not_pushed_consumerStep {cell : Option T} :
    (r.consumerStep capacity).2 ≠ some (.pushed cell) := by
  intro h
  unfold Ring.consumerStep at h
  cases hpc : r.consumer with
  | loadedTail curTail =>
      simp only [hpc] at h
      split at h <;> cases h
  | _ =>
      simp only [hpc] at h
      cases h

end Ring

/-! ## Every interleaving -/

namespace Observed

variable {capacity : Nat}

/-- The answers so far are those of a bounded queue, whose elements the ring
holds. -/
def Simulates (capacity : Nat) (s : Observed T) : Prop :=
  ∃ q, Run (capacity - 1) s.events q ∧ Ring.Holds capacity s.ring q

theorem Simulates.turn {s : Observed T} (h : Simulates capacity s) (t : Turn T) :
    Simulates capacity (s.turn capacity t) := by
  obtain ⟨q, hrun, hholds⟩ := h
  cases t with
  | producer item =>
      obtain ⟨q', hstep, hholds'⟩ := hholds.producerStep item
      exact ⟨q', hrun.extend hstep, hholds'⟩
  | consumer =>
      obtain ⟨q', hstep, hholds'⟩ := hholds.consumerStep
      exact ⟨q', hrun.extend hstep, hholds'⟩

theorem run_concat (turns : List (Turn T)) (t : Turn T) :
    run capacity (turns ++ [t]) = (run capacity turns).turn capacity t := by
  rw [run, List.foldl_append]
  rfl

@[simp]
theorem turn_producer_events (s : Observed T) (item : T) :
    (s.turn capacity (.producer item)).events =
      s.events ++ (s.ring.producerStep capacity item).2.toList :=
  rfl

@[simp]
theorem turn_consumer_events (s : Observed T) :
    (s.turn capacity .consumer).events = s.events ++ (s.ring.consumerStep capacity).2.toList :=
  rfl

theorem simulates_run (hcapacity : 1 ≤ capacity) (turns : List (Turn T)) :
    Simulates capacity (run capacity turns) := by
  induction turns using List.reverseRecOn with
  | nil => exact ⟨[], .nil, .initial hcapacity⟩
  | append_singleton turns t ih =>
      rw [run_concat]
      exact ih.turn t

theorem isSome_of_mem_pushes (turns : List (Turn T)) :
    ∀ cell ∈ pushes (run capacity turns).events, cell.isSome := by
  induction turns using List.reverseRecOn with
  | nil =>
      intro cell hcell
      cases hcell
  | append_singleton turns t ih =>
      -- what one more answer has pushed
      have hanswer : ∀ answer : Option (Event (Option T)),
          (∀ cell, answer = some (.pushed cell) → cell.isSome) →
            ∀ cell ∈ pushes answer.toList, cell.isSome := by
        intro answer hall cell hcell
        obtain ⟨event, hevent, hpushed⟩ := List.mem_filterMap.mp hcell
        rw [Option.mem_toList] at hevent
        cases event with
        | pushed pushed =>
            obtain rfl : pushed = cell := Option.some.inj hpushed
            exact hall _ hevent
        | _ => cases hpushed
      intro cell hcell
      rw [run_concat] at hcell
      cases t with
      | producer item =>
          rw [turn_producer_events, pushes, List.filterMap_append] at hcell
          rcases List.mem_append.mp hcell with hcell | hcell
          · exact ih cell hcell
          · exact hanswer _ (fun _ h => Ring.isSome_of_pushed h) cell hcell
      | consumer =>
          rw [turn_consumer_events, pushes, List.filterMap_append] at hcell
          rcases List.mem_append.mp hcell with hcell | hcell
          · exact ih cell hcell
          · exact hanswer _ (fun _ h => absurd h Ring.not_pushed_consumerStep) cell hcell

end Observed

/-- What two threads can rely on, wherever they stand in their calls. -/
structure BoundedFifo (capacity : Nat) (s : Observed T) : Prop where
  /-- What came out went in, in this order and once. -/
  order : pops s.events <+: pushes s.events
  /-- Nothing half written or moved from came out. -/
  whole : ∀ cell ∈ pops s.events, cell.isSome
  /-- Nothing is lost: between two calls of `try_pop`, the rest is in the slots. -/
  kept : s.ring.consumer = .idle → ∀ i, (pops s.events).length + i < (pushes s.events).length →
    (pushes s.events)[(pops s.events).length + i]? =
      some (s.ring.slots ((s.ring.tail + i) % capacity))
  /-- No more than `capacity - 1` elements are in the queue. -/
  bound : (pushes s.events).length ≤ (pops s.events).length + (capacity - 1)
  /-- The threads are never at the same slot, and never beyond the last. -/
  apart : ∀ i j, s.ring.producer.slot? = some i → s.ring.consumer.slot? = some j → i ≠ j
  inside : ∀ i, s.ring.producer.slot? = some i ∨ s.ring.consumer.slot? = some i → i < capacity
  /-- A push that fails has just seen `capacity - 1` elements. -/
  full : ∀ item, (s.ring.producerStep capacity item).2 = some .full →
    (pushes s.events).length = (pops s.events).length + (capacity - 1)
  /-- A pop that fails has just seen none. -/
  empty : (s.ring.consumerStep capacity).2 = some .empty →
    (pushes s.events).length = (pops s.events).length
  /-- With both threads idle, the size is exact. -/
  size : s.ring.producer = .idle → s.ring.consumer = .idle →
    (pushes s.events).length = (pops s.events).length + s.ring.size capacity

namespace Ring

variable {capacity : Nat} {r : Ring T} {q : List (Option T)}

theorem Holds.producer_slot (h : Holds capacity r q) {i : Nat} (hi : r.producer.slot? = some i) :
    i = r.head := by
  have hknows := h.producer
  unfold ProducerKnows at hknows
  unfold Producer.slot? at hi
  cases hpc : r.producer with
  | writing item curHead nextHead =>
      simp only [hpc] at hknows hi
      cases hi
      exact hknows.1
  | _ =>
      simp only [hpc] at hi
      cases hi

theorem Holds.consumer_slot (h : Holds capacity r q) {i : Nat} (hi : r.consumer.slot? = some i) :
    i = r.tail ∧ q ≠ [] := by
  have hknows := h.consumer
  unfold ConsumerKnows at hknows
  unfold Consumer.slot? at hi
  cases hpc : r.consumer with
  | reading curTail =>
      simp only [hpc] at hknows hi
      cases hi
      exact hknows
  | _ =>
      simp only [hpc] at hi
      cases hi

end Ring

/-- **The queue is a bounded FIFO**, over every interleaving of the steps of
one producer and one consumer. -/
theorem spsc_bounded_fifo {capacity : Nat} (hcapacity : 1 ≤ capacity) (turns : List (Turn T)) :
    BoundedFifo capacity (Observed.run capacity turns) := by
  have hpushed := @Observed.isSome_of_mem_pushes T capacity turns
  obtain ⟨q, hrun, hholds⟩ := Observed.simulates_run hcapacity turns
  generalize Observed.run capacity turns = s at hpushed hrun hholds
  have hcount := hrun.length_eq
  have hlen := hrun.length_le
  constructor
  · exact hrun.pops_prefix
  · exact fun cell hcell => hpushed cell (hrun.pops_prefix.subset hcell)
  · intro hidle i hi
    have hslot := hholds.slot i (by omega)
    unfold Ring.TailTaken at hslot
    simp only [hidle] at hslot
    rw [hrun.pushes_eq, List.getElem?_append_right (by omega), Nat.add_sub_cancel_left]
    exact hslot fun hf => hf.elim
  · omega
  · intro i j hi hj
    rw [hholds.producer_slot hi, (hholds.consumer_slot hj).1]
    have hne := hholds.head_ne (List.length_pos_iff.mpr (hholds.consumer_slot hj).2)
    rw [hholds.tail_mod] at hne
    exact hne.symm
  · intro i hi
    rcases hi with hi | hi
    · rw [hholds.producer_slot hi, hholds.head_eq]
      exact Nat.mod_lt _ (by omega)
    · rw [(hholds.consumer_slot hi).1]
      exact hholds.tail_lt
  · intro item hfull
    obtain ⟨q', hstep, -⟩ := hholds.producerStep item
    rw [hfull] at hstep
    cases hstep with
    | full hfull => omega
  · intro hempty
    obtain ⟨q', hstep, -⟩ := hholds.consumerStep
    rw [hempty] at hstep
    cases hstep with
    | empty => exact hcount
  · intro _ _
    rw [hholds.size_eq]
    exact hcount

/-- One slot for two: the producer fills it, fails, and the consumer takes the
item. -/
theorem spsc_bounded_fifo_two :
    BoundedFifo 2
      (Observed.run 2 (List.replicate 7 (.producer 5) ++ List.replicate 5 .consumer)) :=
  spsc_bounded_fifo (by decide) _

end QpskB210.Modem
