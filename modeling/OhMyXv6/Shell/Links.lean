import OhMyXv6.Lib.Fallible
import OhMyXv6.Shell.HistoryFile

/-!
# `sh.c`: the lists of the history

The commands of the history are nodes of three linked lists: those in front of the one that is recalled,
that one, and those behind it. They are never freed. A pointer is the number of a node, in the order in
which the nodes were allocated, or null.

Following a null pointer is an error. The loop of `reset_command_position` has fuel for each of the nodes.
-/

namespace OhMyXv6
namespace Sh

open Console

/-- The struct `command`. -/
structure Command where
  next : Option ℕ
  content : Str

/-- The struct `history`, and the nodes. -/
structure Links where
  file : HistFile
  heap : List Command
  prev_end : Option ℕ
  prev : Option ℕ
  curr : Option ℕ
  next : Option ℕ

/-- A null pointer is followed, or the fuel is used up. -/
inductive LinkError where
  | null
  | fuel
  deriving DecidableEq, Repr

/-- A program on the cells. -/
abbrev Linking : Type → Type := Fallible Links LinkError

/-- The command that a pointer leads to. -/
def deref (p : Option ℕ) : Linking Command := fun h =>
  match p.bind (h.heap[·]?) with
  | none => .error .null
  | some com => .ok (com, h)

/-- `p->next = v`. -/
def setNext (p v : Option ℕ) : Linking Unit := fun h =>
  match p with
  | none => .error .null
  | some a =>
    if a < h.heap.length then
      .ok ((), { h with heap := h.heap.modify a fun com => { com with next := v } })
    else .error .null

/-- A node with the given content, and null behind it. -/
def newCommand (content : Str) : Linking ℕ := fun h =>
  .ok (h.heap.length, { h with heap := h.heap ++ [⟨none, content⟩] })

/-- `load_history_command`: an older command at the end of the list. -/
def load_history_command (content : Str) : Linking Unit := do
  let com ← newCommand content
  let h ← get
  if h.prev = none then set { h with prev := some com, prev_end := some com }
  else
    setNext h.prev_end (some com)
    modify fun h => { h with prev_end := some com }

/-- `load_history_command`, for one command after the other. -/
def loadCommands : List Str → Linking Unit
  | [] => return
  | content :: l => do
    load_history_command content
    loadCommands l

namespace Links

/-- `load_history`: the commands that it finds, each of which is put behind the last node. -/
def load_history : Linking Unit := do
  let h ← get
  let x := Sh.load_history h.file
  set { h with file := x.1 }
  loadCommands x.2

/-- The loop of `reset_command_position`. -/
def resetLoop : ℕ → Linking Unit
  | 0 => throw .fuel
  | n + 1 => do
    let h ← get
    if h.next = none then return
    else
      let com ← deref h.next
      set { h with next := com.next }
      -- `next->next = prev`
      setNext h.next h.prev
      modify fun h' => { h' with prev := h.next }
      resetLoop n

/-- `if (history.curr) { history.curr->next = history.prev; history.prev = history.curr; }`. -/
def putBack : Linking Unit := do
  let h ← get
  if h.curr = none then return
  else
    setNext h.curr h.prev
    modify fun h => { h with prev := h.curr }

/-- `reset_command_position`, on the cells. -/
def reset_command_position : Linking Unit := do
  putBack
  modify fun h => { h with curr := none }
  let h ← get
  resetLoop (h.heap.length + 1)

/-- The content of `history.prev`, if there is one. -/
def prevContent : Linking (Option Str) := do
  let h ← get
  if h.prev = none then return none
  else
    let com ← deref h.prev
    return some com.content

/-- `log_command`, for a string that is not empty. Its last byte is the newline. -/
def log_command (buf : Str) : Linking Unit := do
  reset_command_position
  let content := buf.dropLast
  let newest ← prevContent
  -- a repetition is not logged
  if newest = some content then return
  else
    modify fun h =>
      { h with file :=
          { h.file with file := (h.file.file.fileseek 0 .eof).1.filewrite (content ++ [chr '\n']) } }
    let com ← newCommand content
    let h ← get
    -- the first command is also the oldest
    if h.prev = none then
      setNext (some com) none
      modify fun h => { h with prev := some com, prev_end := some com }
    else
      setNext (some com) h.prev
      modify fun h => { h with prev := some com }

/-- `if (history.curr) { history.curr->next = history.next; history.next = history.curr; }`. -/
def putAhead : Linking Unit := do
  let h ← get
  if h.curr = none then return
  else
    setNext h.curr h.next
    modify fun h => { h with next := h.curr }

/-- `get_prev_command`, which calls itself `n` times at most. -/
def get_prev_command : ℕ → Linking (Option Str)
  | 0 => throw .fuel
  | n + 1 => do
    let h ← get
    if h.prev = none then
      -- the whole file is in the list
      if h.file.topped then return none
      else
        load_history
        get_prev_command n
    else
      putAhead
      let com ← deref h.prev
      modify fun h' => { h' with curr := h.prev, prev := com.next }
      setNext h.prev none
      return some com.content

/-- `get_next_command`, on the cells. -/
def get_next_command : Linking (Option Str) := do
  let h ← get
  if h.next = none then
    putBack
    modify fun h => { h with curr := none }
    return none
  else
    putBack
    let com ← deref h.next
    modify fun h' => { h' with curr := h.next, next := com.next }
    setNext h.next none
    return some com.content

/-- The lists are empty at first. -/
def init_history (data : List UInt8) : Linking Unit := do
  set { file := ⟨⟨data, 0⟩, data.length, false⟩, heap := [], prev_end := none, prev := none,
        curr := none, next := none : Links }
  load_history

end Links

/-- A call of the shell. `prev` has fuel for so many calls. -/
inductive NavOp where
  | prev (fuel : ℕ)
  | next
  | reset
  | log (buf : Str)

/-- What an operation does to the cells. -/
def NavOp.run : NavOp → Linking (Option Str)
  | .prev fuel => Links.get_prev_command fuel
  | .next => Links.get_next_command
  | .reset => do
    Links.reset_command_position
    return none
  | .log buf => do
    Links.log_command buf
    return none

/-- One call after the other. -/
def NavOp.runAll : List NavOp → Linking Unit
  | [] => return
  | op :: ops => do
    let _ ← op.run
    runAll ops

/-- The history of commands does the same. -/
def NavOp.model : NavOp → History HistFile → Option (History HistFile × Option Str)
  | .prev fuel, h => h.get_prev_command load fuel
  | .next, h => some h.get_next_command
  | .reset, h => some (h.reset_command_position, none)
  | .log buf, h => some (log_command buf h, none)

end Sh
end OhMyXv6
