import Mathlib.Logic.Basic

/-!
# Named pipes

A named pipe as `open`, `read`, `write` and `close` see it. Opening one end waits for the other end,
and that has two halves: a process is counted as soon as it comes, and it goes on once somebody has
come to the other end *since then*, even if they have left again by then. So a pipe remembers how
often either end has been opened, and a process that has to wait keeps the number it has found.

**What is in the pipe lives as long as somebody has it open.** A write goes nowhere if nobody has
the other end, and the last one to leave takes what has not been read with it.
-/

set_option autoImplicit false

namespace Interact

structure Fifo where
  readers : Nat
  writers : Nat
  /-- How often it has been opened for reading. -/
  readersEver : Nat
  writersEver : Nat
  buffer : List UInt8
  deriving Repr, DecidableEq

namespace Fifo

variable (f : Fifo)

def new : Fifo := ⟨0, 0, 0, 0, []⟩

/-- The first half of opening it for reading. The reader has to wait if nobody writes. -/
def enterRead : Fifo := { f with readers := f.readers + 1, readersEver := f.readersEver + 1 }

def enterWrite : Fifo := { f with writers := f.writers + 1, writersEver := f.writersEver + 1 }

/-- `EPIPE` is `none`. Short writes fit. -/
def write (bytes : List UInt8) : Option Fifo :=
  if f.readers = 0 then none else some { f with buffer := f.buffer ++ bytes }

/-- Up to `count` bytes, none at the end of the stream; `none` means that the reader blocks. -/
def read (count : Nat) : Option (List UInt8 × Fifo) :=
  if f.buffer ≠ [] then some (f.buffer.take count, { f with buffer := f.buffer.drop count })
  else if f.writers = 0 then some ([], f)
  else none

/-- What is left when somebody has closed it. -/
def settle : Fifo := if f.readers = 0 ∧ f.writers = 0 then { f with buffer := [] } else f

def closeRead : Fifo := settle { f with readers := f.readers - 1 }

def closeWrite : Fifo := settle { f with writers := f.writers - 1 }

variable {f}

theorem write_of_readers {bytes : List UInt8} (h : f.readers ≠ 0) :
    f.write bytes = some { f with buffer := f.buffer ++ bytes } := if_neg h

theorem read_of_buffer {count : Nat} (h : f.buffer ≠ []) :
    f.read count = some (f.buffer.take count, { f with buffer := f.buffer.drop count }) := if_pos h

theorem closeWrite_of_readers (h : f.readers ≠ 0) :
    f.closeWrite = { f with writers := f.writers - 1 } :=
  if_neg fun hboth => h hboth.1

/-! ### Who writes -/

variable (f)

@[simp] theorem enterRead_writers : f.enterRead.writers = f.writers := rfl

@[simp] theorem enterRead_writersEver : f.enterRead.writersEver = f.writersEver := rfl

@[simp] theorem enterWrite_writers : f.enterWrite.writers = f.writers + 1 := rfl

@[simp] theorem enterWrite_writersEver : f.enterWrite.writersEver = f.writersEver + 1 := rfl

@[simp] theorem settle_writers : f.settle.writers = f.writers := by
  rw [settle]
  split <;> rfl

@[simp] theorem settle_writersEver : f.settle.writersEver = f.writersEver := by
  rw [settle]
  split <;> rfl

@[simp] theorem closeRead_writers : f.closeRead.writers = f.writers := settle_writers _

@[simp] theorem closeRead_writersEver : f.closeRead.writersEver = f.writersEver :=
  settle_writersEver _

@[simp] theorem closeWrite_writers : f.closeWrite.writers = f.writers - 1 := settle_writers _

@[simp] theorem closeWrite_writersEver : f.closeWrite.writersEver = f.writersEver :=
  settle_writersEver _

@[simp] theorem write_getD_writers (bytes : List UInt8) :
    ((f.write bytes).getD f).writers = f.writers := by
  rw [write]
  split <;> rfl

@[simp] theorem write_getD_writersEver (bytes : List UInt8) :
    ((f.write bytes).getD f).writersEver = f.writersEver := by
  rw [write]
  split <;> rfl

variable {f}

theorem writers_of_read {count : Nat} {bytes : List UInt8} {f' : Fifo}
    (h : f.read count = some (bytes, f')) :
    f'.writers = f.writers ∧ f'.writersEver = f.writersEver := by
  rw [read] at h
  split at h
  · cases h
    exact ⟨rfl, rfl⟩
  · split at h
    · cases h
      exact ⟨rfl, rfl⟩
    · cases h

theorem read_of_closed {count : Nat} (h : f.writers = 0) : ∃ r, f.read count = some r := by
  rw [read, if_pos h]
  split <;> exact ⟨_, rfl⟩

end Fifo

end Interact
