/-
ChatSystem/ClientList.lean

`client_list.c`: the table of clients.  The globals `lista` and
`num_clientes` form a `Table`; each `cl_*` function is the body of its
critical section, a function of the table (the mutex is the server's, see
`ChatSystem/Server.lean`).  `time(NULL)` is an argument.

`num_clientes` is a high-water mark: `clRemove` clears `activo` in place and
lowers nothing.  The loops of the source run over the first `num_clientes`
slots, `Table.used`.
-/
import ChatSystem.Protocol

namespace ChatSystem

open CStr

/-- `MAX_CLIENTS`. -/
def maxClients : ℕ := 100

/-- `Cliente`. -/
structure Cliente where
  username : CharArray 32
  ip : CharArray 16
  status : CharArray 16
  sockfd : ℤ
  activo : Bool
  ultimoMensaje : ℤ
deriving DecidableEq, Repr

/-- `memset(&lista[i], 0, sizeof(Cliente))`. -/
def Cliente.zero : Cliente :=
  ⟨.zero 32, .zero 16, .zero 16, 0, false, 0⟩

/-- `lista` and `num_clientes`. -/
structure Table where
  lista : List Cliente
  numClientes : ℕ
deriving DecidableEq, Repr

namespace Table

/-- The slots the loops `for (i = 0; i < num_clientes; i++)` visit. -/
def used (t : Table) : List Cliente := t.lista.take t.numClientes

/-- Overwrite slot `i`. -/
def setSlot (t : Table) (i : ℕ) (r : Cliente) : Table :=
  { t with lista := t.lista.set i r }

/-- Update the record in slot `i`. -/
def modifySlot (t : Table) (i : ℕ) (f : Cliente → Cliente) : Table :=
  { t with lista := t.lista.modify i f }

end Table

/-- `cl_init`. -/
def clInit : Table := ⟨List.replicate maxClients Cliente.zero, 0⟩

/-! ### Lookups -/

/-- `cl_find_by_name`; `none` is the source's `-1`. -/
def clFindByName (t : Table) (username : List UInt8) : Option ℕ :=
  t.used.findIdx? fun r => r.activo && strEq r.username.bytes username

/-- `cl_find_by_fd`. -/
def clFindByFd (t : Table) (sockfd : ℤ) : Option ℕ :=
  t.used.findIdx? fun r => r.activo && r.sockfd == sockfd

/-! ### Adding and removing -/

/-- The duplicate test of `cl_add`. -/
def duplicate (t : Table) (username ip : List UInt8) : Bool :=
  t.used.any fun r =>
    r.activo && (strEq r.username.bytes username || strEq r.ip.bytes ip)

/-- The first free slot below the high-water mark. -/
def freeSlot (t : Table) : Option ℕ :=
  t.used.findIdx? fun r => !r.activo

/-- The slot `cl_add` fills: a freed one, or the next one. -/
def addSlot (t : Table) : ℕ := (freeSlot t).getD t.numClientes

/-- The record `cl_add` writes into its slot. -/
def newCliente (username ip : List UInt8) (sockfd now : ℤ) : Cliente where
  username := (CharArray.zero 32).strncpy username 31 name_limit
  ip := (CharArray.zero 16).strncpy ip 15 status_limit
  status := (CharArray.zero 16).strncpy statusActivo 15 status_limit
  sockfd := sockfd
  activo := true
  ultimoMensaje := now

/-- `cl_add`: the return code and the table after it. -/
def clAdd (t : Table) (username ip : List UInt8) (sockfd now : ℤ) : ℤ × Table :=
  -- the mark is tested before the search for a freed slot
  if t.numClientes ≥ maxClients then (-2, t)
  else if duplicate t username ip then (-1, t)
  else
    let r := newCliente username ip sockfd now
    match freeSlot t with
    | some slot => (0, t.setSlot slot r)
    -- `slot = num_clientes++`
    | none =>
      (0, { t.setSlot t.numClientes r with numClientes := t.numClientes + 1 })

/-- `cl_remove`. -/
def clRemove (t : Table) (sockfd : ℤ) : ℤ × Table :=
  match clFindByFd t sockfd with
  | some idx => (0, t.modifySlot idx fun r => { r with activo := false })
  | none => (-1, t)

/-! ### Status and activity -/

/-- `strncpy(lista[idx].status, new_status, 15); lista[idx].status[15] = 0`. -/
def setStatus (newStatus : List UInt8) (r : Cliente) : Cliente :=
  { r with status := (r.status.strncpy newStatus 15 status_limit).put 15 0 }

/-- `cl_set_status`. -/
def clSetStatus (t : Table) (username newStatus : List UInt8) : ℤ × Table :=
  match clFindByName t username with
  | some idx => (0, t.modifySlot idx (setStatus newStatus))
  | none => (-1, t)

/-- What `cl_touch` does to the record it finds. -/
def touchCliente (now : ℤ) (r : Cliente) : Cliente :=
  if strEq r.status.bytes statusInactivo then
    { r with ultimoMensaje := now, status := r.status.strncpy statusActivo 15 status_limit }
  else { r with ultimoMensaje := now }

/-- `cl_touch`: whether the client was reactivated, and the table after it. -/
def clTouch (t : Table) (sockfd now : ℤ) : Bool × Table :=
  match clFindByFd t sockfd with
  | some idx =>
    (match t.lista[idx]? with
      | some r => strEq r.status.bytes statusInactivo
      | none => false,
     t.modifySlot idx (touchCliente now))
  | none => (false, t)

/-- The test of `inactivity_thread`'s loop body: the record is to be marked. -/
def idle (now : ℤ) (r : Cliente) : Bool :=
  r.activo && !strEq r.status.bytes statusInactivo
    && decide (now - r.ultimoMensaje ≥ inactivityTimeout)

/-- `strncpy(lista[i].status, STATUS_INACTIVO, 15)`. -/
def markInactive (r : Cliente) : Cliente :=
  { r with status := r.status.strncpy statusInactivo 15 status_limit }

/-- The body of `inactivity_thread`'s loop, without the notice it sends. -/
def sweepSlot (now : ℤ) (t : Table) (i : ℕ) : Table :=
  match t.lista[i]? with
  | some r => if idle now r then t.modifySlot i markInactive else t
  | none => t

/-- A whole sweep of the table. -/
def sweep (now : ℤ) (t : Table) : Table :=
  (List.range t.numClientes).foldl (sweepSlot now) t

/-! ### Reports -/

/-- What `"%s%s,%s"` expands to for one record. -/
def listPiece (offset : ℕ) (r : Cliente) : List UInt8 :=
  (if offset > 0 then utf8 ";" else []) ++ r.username.str ++ utf8 "," ++ r.status.str

/-- The loop of `cl_build_list`: `buf` so far, `offset` bytes of it used. -/
def buildLoop (buflen : ℕ) : List Cliente → List UInt8 → ℕ → List UInt8
  | [], buf, _ => buf
  | r :: rs, buf, offset =>
    if !r.activo then buildLoop buflen rs buf offset
    else
      let (buf', n) := snprintf buf offset (sizeSub buflen offset) (listPiece offset r)
      -- the piece did not fit: leave the loop, what was written stays
      if n ≥ sizeSub buflen offset then buf'
      else buildLoop buflen rs buf' (offset + n)

/-- `cl_build_list(buf, buflen)`. -/
def clBuildList (t : Table) (buf : List UInt8) (buflen : ℕ) : List UInt8 :=
  buildLoop buflen t.used (buf.set 0 0) 0

theorem length_buildLoop (buflen : ℕ) (rs : List Cliente) (buf : List UInt8) (offset : ℕ) :
    (buildLoop buflen rs buf offset).length = buf.length := by
  induction rs generalizing buf offset with
  | nil => rfl
  | cons r rs ih =>
    have hwrite : ∀ size text, (snprintf buf offset size text).1.length = buf.length := by
      intro size text
      unfold snprintf
      split <;> simp
    simp only [buildLoop]
    split
    · exact ih _ _
    · split
      · exact hwrite _ _
      · rw [ih, hwrite]

@[simp] theorem length_clBuildList (t : Table) (buf : List UInt8) (buflen : ℕ) :
    (clBuildList t buf buflen).length = buf.length := by
  rw [clBuildList, length_buildLoop, List.length_set]

/-- `cl_get_info(username, buf, buflen)`: the string left in `buf`. -/
def clGetInfo (t : Table) (username : List UInt8) (buflen : ℕ) : Option (List UInt8) :=
  match clFindByName t username with
  | some idx =>
    (t.lista[idx]?).map fun r =>
      (r.ip.str ++ utf8 "," ++ r.status.str).take (buflen - 1)
  | none => none

end ChatSystem
