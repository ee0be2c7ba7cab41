import EntityStore.Entity
import EntityStore.Fifo

/-!
# Issuing and releasing handles

The allocator owns the slots.  A slot is *alive* between the issue of a handle to it and the
release of that handle.  A release moves the slot to its next generation and puts it at the end of
the queue of free slots, and an issue takes the slot at the head of that queue.  So slots are
reused in the order of their release, and a slot's generation is the number of its releases,
counted modulo 2^32.

A handle is alive when its slot is, at the generation of the handle.  Releasing a handle that is
not alive changes nothing.
-/

namespace EntityStore

/-- The slots, with the queue of those that wait for reuse. -/
structure Allocator where
  /-- The generation of each slot. -/
  generations : Array UInt32 := #[]
  /-- Whether each slot is alive. -/
  alive : Array Bool := #[]
  /-- The slots that wait for reuse, in the order of their release. -/
  free : Fifo UInt32 := {}
  /-- The number of slots that are alive. -/
  aliveCount : Nat := 0

namespace Allocator

/-- The number of slots there can be.  The index after the last one belongs to the null handle. -/
def slotLimit : Nat := 0xffffffff

/-- The number of slots that exist. -/
def slotCount (a : Allocator) : Nat := a.generations.size

/-- Whether the slot of the handle is alive at the generation of the handle. -/
def isAlive (a : Allocator) (e : Entity) : Bool :=
  a.alive[e.index.toNat]? == some true && a.generations[e.index.toNat]? == some e.generation

/-- Issues a handle: to the slot that has waited longest, or else to a new slot.  There is none,
and nothing changes, when no slot waits and all slots there can be exist. -/
def allocate (a : Allocator) : Option Entity × Allocator :=
  match a.free.pop? with
  | some (i, rest) =>
    (some ⟨i, a.generations[i.toNat]?.getD 0⟩,
      { a with
        alive := a.alive.setIfInBounds i.toNat true
        free := rest
        aliveCount := a.aliveCount + 1 })
  | none =>
    let i := a.generations.size
    if i < slotLimit then
      (some ⟨i.toUInt32, 0⟩,
        { a with
          generations := a.generations.push 0
          alive := a.alive.push true
          aliveCount := a.aliveCount + 1 })
    else (none, a)

/-- Releases a handle.  The answer is whether it was alive. -/
def deallocate (a : Allocator) (e : Entity) : Bool × Allocator :=
  if a.isAlive e then
    let i := e.index.toNat
    (true,
      { generations := a.generations.modify i (· + 1)
        alive := a.alive.setIfInBounds i false
        free := a.free.push e.index
        aliveCount := a.aliveCount - 1 })
  else (false, a)

/-- The live handle of a slot, if the slot is alive. -/
def handleAt? (a : Allocator) (i : Nat) : Option Entity :=
  if a.alive[i]? = some true then a.generations[i]?.map (Entity.mk i.toUInt32) else none

/-- The live handles, in the order of their slots. -/
def entities (a : Allocator) : List Entity :=
  (List.range a.slotCount).filterMap a.handleAt?

@[simp] theorem deallocate_of_not_isAlive {a : Allocator} {e : Entity} (h : a.isAlive e = false) :
    a.deallocate e = (false, a) := by
  simp [deallocate, h]

end Allocator

end EntityStore
