/-!
# The loop stack

The positions of the `[` whose loops are entered, the innermost last. The stack
holds at most `capacity` of them, and a push beyond that is refused.
-/

namespace Brainfuck

/-- The positions of the entered loops, at most `capacity` of them. -/
structure LoopStack where
  /-- The positions, outermost first. -/
  entries : Array Nat
  /-- How many positions the stack may hold. -/
  capacity : Nat
  deriving DecidableEq, Repr

namespace LoopStack

/-- The capacity of a stack when nothing else is asked for. -/
def defaultCapacity : Nat := 4096

/-- An empty stack. -/
def ofCapacity (capacity : Nat) : LoopStack := ⟨#[], capacity⟩

instance : Inhabited LoopStack := ⟨ofCapacity defaultCapacity⟩

/-- The number of entered loops. -/
def depth (s : LoopStack) : Nat := s.entries.size

/-- Enter the loop at `position`; none if the stack is full. -/
def push? (position : Nat) (s : LoopStack) : Option LoopStack :=
  if s.capacity ≤ s.depth then none else some { s with entries := s.entries.push position }

/-- The innermost entered loop. -/
def top? (s : LoopStack) : Option Nat := s.entries.back?

/-- Leave the innermost entered loop; nothing changes if there is none. -/
def pop (s : LoopStack) : LoopStack := { s with entries := s.entries.pop }

/-- Leave every loop. -/
def clear (s : LoopStack) : LoopStack := { s with entries := #[] }

/-- No more loops are entered than fit. -/
def WellFormed (s : LoopStack) : Prop := s.depth ≤ s.capacity

@[simp] theorem depth_ofCapacity (c : Nat) : (ofCapacity c).depth = 0 := rfl

@[simp] theorem depth_clear (s : LoopStack) : s.clear.depth = 0 := rfl

@[simp] theorem capacity_clear (s : LoopStack) : s.clear.capacity = s.capacity := rfl

@[simp] theorem capacity_pop (s : LoopStack) : s.pop.capacity = s.capacity := rfl

@[simp] theorem depth_pop (s : LoopStack) : s.pop.depth = s.depth - 1 := by simp [pop, depth]

theorem push?_eq_some_iff {s s' : LoopStack} {p : Nat} :
    s.push? p = some s' ↔ s.depth < s.capacity ∧ s' = ⟨s.entries.push p, s.capacity⟩ := by
  unfold push?
  split
  · simp; omega
  · simp [eq_comm]; omega

theorem push?_eq_none_iff {s : LoopStack} {p : Nat} : s.push? p = none ↔ s.capacity ≤ s.depth := by
  simp [push?]

theorem wellFormed_of_push? {s s' : LoopStack} {p : Nat} (h : s.push? p = some s') :
    s'.WellFormed := by
  obtain ⟨hlt, rfl⟩ := push?_eq_some_iff.1 h
  unfold WellFormed depth at *
  rw [Array.size_push]
  exact hlt

theorem capacity_of_push? {s s' : LoopStack} {p : Nat} (h : s.push? p = some s') :
    s'.capacity = s.capacity := by
  obtain ⟨-, rfl⟩ := push?_eq_some_iff.1 h
  rfl

theorem WellFormed.pop {s : LoopStack} (h : s.WellFormed) : s.pop.WellFormed := by
  unfold WellFormed at *
  rw [depth_pop, capacity_pop]
  omega

/-! ### The stack as a list -/

/-- The positions of the entered loops, the innermost first. -/
def opened (s : LoopStack) : List Nat := s.entries.toList.reverse

@[simp] theorem reverse_opened (s : LoopStack) : s.opened.reverse = s.entries.toList :=
  List.reverse_reverse _

@[simp] theorem opened_clear (s : LoopStack) : s.clear.opened = [] := rfl

@[simp] theorem length_opened (s : LoopStack) : s.opened.length = s.depth := by
  simp [opened, depth]

@[simp] theorem opened_pop (s : LoopStack) : s.pop.opened = s.opened.tail := by
  simp [opened, pop]

theorem top?_eq_head? (s : LoopStack) : s.top? = s.opened.head? := by
  simp [top?, opened]

theorem exists_opened_of_top? {s : LoopStack} {p : Nat} (h : s.top? = some p) :
    ∃ ps, s.opened = p :: ps := by
  rw [top?_eq_head?, List.head?_eq_some_iff] at h
  exact h

theorem opened_of_push? {s s' : LoopStack} {p : Nat} (h : s.push? p = some s') :
    s'.opened = p :: s.opened := by
  obtain ⟨-, rfl⟩ := push?_eq_some_iff.1 h
  simp [opened]

/-- The loop just entered is the innermost. -/
theorem top?_of_push? {s s' : LoopStack} {p : Nat} (h : s.push? p = some s') :
    s'.top? = some p := by
  rw [top?_eq_head?, opened_of_push? h, List.head?_cons]

/-- Leaving a loop just entered gives the stack from before. -/
theorem pop_of_push? {s s' : LoopStack} {p : Nat} (h : s.push? p = some s') : s'.pop = s := by
  obtain ⟨-, rfl⟩ := push?_eq_some_iff.1 h
  simp [pop]

/-- Two stacks of one capacity that list the same loops are equal. -/
theorem eq_of_opened_eq {s s' : LoopStack} (ho : s.opened = s'.opened)
    (hc : s.capacity = s'.capacity) : s = s' := by
  obtain ⟨entries, capacity⟩ := s
  obtain ⟨entries', capacity'⟩ := s'
  have he : entries.toList = entries'.toList := List.reverse_inj.1 ho
  cases hc
  cases Array.toList_inj.1 he
  rfl

end LoopStack

end Brainfuck
