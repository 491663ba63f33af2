/- GID: HasherPriv/IoLoop/X11
   layer: input and output loop
   source: io_x11.c, x11.c
   digest: The forwarded X11 connections and the substitution of the cookie. -/

import HasherPriv.IoLoop.Calls

set_option autoImplicit false
set_option relaxedAutoImplicit false

namespace HasherPriv.IoLoop.X11

open Foundations.ByteString (Bytes)
open Foundations.Program
open Calls

/-- `struct io_x11`. The master is the X server, the slave a client in the chroot. -/
structure IoX11 where
  masterFd : ℤ
  slaveFd : ℤ
  masterBuf : Buffer := .empty
  slaveBuf : Buffer := .empty
  authenticated : Bool := false
  deriving DecidableEq

/-- `io_x11_list`. -/
abbrev IoX11List := List (Option IoX11)

/-! The cookie. -/

/-- `x11_saved_data` and `x11_fake_data`, both of `x11_data_len` bytes. -/
structure Auth where
  saved : Bytes
  fake : Bytes
  same : saved.length = fake.length
  deriving DecidableEq

/-- `(n + 3) & ~3`. -/
def pad4 (n : ℕ) : ℕ := (n + 3) / 4 * 4

/-- `proto_len` and `data_len`, read in the byte order that the first byte names. -/
def setupLengths (p : Bytes) : Option (ℕ × ℕ) :=
  let at' (i : ℕ) : ℕ := (p.getD i 0).toNat
  if at' 0 = 0x42 then some (at' 7 + 256 * at' 6, at' 9 + 256 * at' 8)
  else if at' 0 = 0x6c then some (at' 6 + 256 * at' 7, at' 8 + 256 * at' 9)
  else none

/-- `io_check_auth_data` on the bytes of the first read; the pointers are null as long as there
is no connection. -/
def ioCheckAuthData : Option Auth → Bytes → Bytes
  | none, p => p
  | some auth, p =>
      if p.length < 12 then p
      else
        match setupLengths p with
        | none => p
        | some (protoLen, dataLen) =>
            let cookie := 12 + pad4 protoLen
            if p.length < cookie + pad4 dataLen then p
            else if protoLen = 0 ∧ dataLen = 0 then p
            else if dataLen ≠ auth.fake.length ∨
                (p.drop cookie).take auth.fake.length ≠ auth.fake then p
            else p.take cookie ++ auth.saved ++ p.drop (cookie + auth.fake.length)

theorem ioCheckAuthData_length (auth : Option Auth) (p : Bytes) :
    (ioCheckAuthData auth p).length = p.length := by
  cases auth with
  | none => rfl
  | some auth =>
      unfold ioCheckAuthData
      dsimp only
      split_ifs with hshort
      · rfl
      · split
        · rfl
        · split_ifs with hlong hempty hother
          · rfl
          · rfl
          · rfl
          · rw [not_or, not_not, not_not] at hother
            have hpad : ∀ n, n ≤ pad4 n := fun n => by simp only [pad4]; omega
            have hdata := hpad auth.fake.length
            have hsame := auth.same
            rw [hother.1] at hlong
            simp only [List.length_append, List.length_take, List.length_drop]
            omega

/-- The connection with the data of its first read checked. -/
def IoX11.checkAuthData (auth : Option Auth) (io : IoX11) : IoX11 :=
  if io.authenticated then io
  else
    { io with
      authenticated := true
      slaveBuf :=
        { bytes := ioCheckAuthData auth io.slaveBuf.data ++ io.slaveBuf.bytes.drop io.slaveBuf.avail
          avail := io.slaveBuf.avail
          size := by
            have hle := io.slaveBuf.le
            simp [ioCheckAuthData_length, io.slaveBuf.size]
            omega
          le := io.slaveBuf.le } }

section CheckAuthData

variable (auth : Option Auth) (io : IoX11)

@[simp] theorem IoX11.checkAuthData_masterFd : (io.checkAuthData auth).masterFd = io.masterFd := by
  unfold checkAuthData
  split_ifs <;> rfl

@[simp] theorem IoX11.checkAuthData_slaveFd : (io.checkAuthData auth).slaveFd = io.slaveFd := by
  unfold checkAuthData
  split_ifs <;> rfl

@[simp] theorem IoX11.checkAuthData_masterBuf :
    (io.checkAuthData auth).masterBuf = io.masterBuf := by
  unfold checkAuthData
  split_ifs <;> rfl

@[simp] theorem IoX11.checkAuthData_avail :
    (io.checkAuthData auth).slaveBuf.avail = io.slaveBuf.avail := by
  unfold checkAuthData
  split_ifs <;> rfl

@[simp] theorem IoX11.checkAuthData_authenticated :
    (io.checkAuthData auth).authenticated = true := by
  unfold checkAuthData
  split_ifs with hdone
  · exact hdone
  · rfl

/-- The second and later reads are left as they are. -/
theorem IoX11.checkAuthData_of_authenticated (h : io.authenticated = true) :
    io.checkAuthData auth = io := if_pos h

theorem IoX11.checkAuthData_data (h : io.authenticated = false) :
    (io.checkAuthData auth).slaveBuf.data = ioCheckAuthData auth io.slaveBuf.data := by
  have hlen : (ioCheckAuthData auth io.slaveBuf.data).length = io.slaveBuf.avail := by
    rw [ioCheckAuthData_length, Buffer.data_length]
  rw [checkAuthData, if_neg (by simp [h])]
  exact List.take_left' hlen

end CheckAuthData

/-! New connections. -/

/-- How to reach the X server: by the socket in a directory, or by name. -/
inductive ConnectMethod
  | unix (dirFd : ℤ)
  | inet
  deriving DecidableEq

def x11ConnectUnix (dirFd : ℤ) : IoProg (Option ℕ) := do
  let fd ← (do
    if ← ioCall (.fchdir dirFd) then
      match ← ioCall .socket with
      | none => return none
      | some fd =>
          if ← ioCall (.connect fd) then return some fd
          else
            xclose fd
            return none
    else return none : IoProg (Option ℕ))
  let _ ← ioCall .chdir
  return fd

/-- The loop over that many addresses. -/
def x11ConnectAddress : ℕ → IoProg (Option ℕ)
  | 0 => return none
  | n + 1 => do
      match ← ioCall .socket with
      | none => x11ConnectAddress n
      | some fd =>
          if ← ioCall (.connect fd) then return some fd
          else
            xclose fd
            x11ConnectAddress n

def x11ConnectInet : IoProg (Option ℕ) := do
  match ← ioCall .getaddrinfo with
  | none => return none
  | some addresses => x11ConnectAddress addresses

def x11Connect : Option ConnectMethod → IoProg (Option ℕ)
  | none => return none
  | some (.unix dirFd) => x11ConnectUnix dirFd
  | some .inet => x11ConnectInet

/-- The first free slot, or one more. -/
def insertFirst (io : IoX11) : IoX11List → IoX11List
  | [] => [some io]
  | none :: l => some io :: l
  | some io' :: l => some io' :: insertFirst io l

def ioX11New (masterFd slaveFd : ℤ) (l : IoX11List) : IoProg IoX11List := do
  unblockFd masterFd
  unblockFd slaveFd
  return insertFirst { masterFd := masterFd, slaveFd := slaveFd } l

def x11HandleNew (method : Option ConnectMethod) (x11Fd : ℤ) (reads : FdSet) (l : IoX11List) :
    IoProg IoX11List := do
  if ¬ fdsIsset reads x11Fd then return l
  else
    match ← ioCall (.accept x11Fd) with
    | none => return l
    | some acceptFd =>
        match ← x11Connect method with
        | some connectFd => ioX11New connectFd acceptFd l
        | none =>
            xclose acceptFd
            return l

/-! Selecting. -/

def IoX11.addFds (io : IoX11) (s : Sets) : Sets :=
  let s := if io.slaveBuf.avail ≠ 0 then s.addWrite io.masterFd else s.addRead io.slaveFd
  if io.masterBuf.avail ≠ 0 then s.addWrite io.slaveFd else s.addRead io.masterFd

def fdsAddX11 (l : IoX11List) (s : Sets) : Sets :=
  l.foldl (fun s io => io.elim s fun io => io.addFds s) s

/-! Relaying. -/

/-- Write what is in the buffer; `none` where nothing can be written. -/
def writeOut (fd : ℤ) (b : Buffer) : IoProg (Option Buffer) := do
  match ← ioCall (.write fd b.data) with
  | none => return none
  | some n => if n.val = 0 then return none else return some (b.consume n)

/-- Read into the empty buffer; `none` at the end of the stream or on an error. -/
def readIn (fd : ℤ) (b : Buffer) : IoProg (Option Buffer) := do
  match ← ioCall (.read fd bufsiz) with
  | none => return none
  | some d => if d.val = [] then return none else return some (b.fill d)

/-! The four half-steps of `x11_handle_select` for one connection. -/

def writeSlave (writes : FdSet) (io : IoX11) : IoProg (Option IoX11) := do
  if io.masterBuf.avail ≠ 0 ∧ fdsIsset writes io.slaveFd then
    return (← writeOut io.slaveFd io.masterBuf).map fun b => { io with masterBuf := b }
  else return some io

def readMaster (reads : FdSet) (io : IoX11) : IoProg (Option IoX11) := do
  if io.masterBuf.avail = 0 ∧ fdsIsset reads io.masterFd then
    return (← readIn io.masterFd io.masterBuf).map fun b => { io with masterBuf := b }
  else return some io

def writeMaster (writes : FdSet) (io : IoX11) : IoProg (Option IoX11) := do
  if io.slaveBuf.avail ≠ 0 ∧ fdsIsset writes io.masterFd then
    return (← writeOut io.masterFd io.slaveBuf).map fun b => { io with slaveBuf := b }
  else return some io

def readSlave (auth : Option Auth) (reads : FdSet) (io : IoX11) : IoProg (Option IoX11) := do
  if io.slaveBuf.avail = 0 ∧ fdsIsset reads io.slaveFd then
    return (← readIn io.slaveFd io.slaveBuf).map fun b =>
      { io with slaveBuf := b }.checkAuthData auth
  else return some io

def ioX11Free (io : IoX11) : IoProg Unit := do
  xclose io.masterFd
  xclose io.slaveFd

/-- A half-step, and what follows unless the connection is dropped. -/
def orFree (io : IoX11) (step : IoProg (Option IoX11)) (next : IoX11 → IoProg (Option IoX11)) :
    IoProg (Option IoX11) := do
  match ← step with
  | none =>
      ioX11Free io
      return none
  | some io => next io

/-- The body of the loop of `x11_handle_select`. -/
def relay (auth : Option Auth) (reads writes : FdSet) (io : IoX11) : IoProg (Option IoX11) :=
  orFree io (writeSlave writes io) fun io =>
    orFree io (readMaster reads io) fun io =>
      orFree io (writeMaster writes io) fun io =>
        orFree io (readSlave auth reads io) fun io => return some io

def x11HandleSelect (auth : Option Auth) (reads writes : FdSet) : IoX11List → IoProg IoX11List
  | [] => return []
  | none :: l => do
      let l ← x11HandleSelect auth reads writes l
      return none :: l
  | some io :: l => do
      let io ← relay auth reads writes io
      let l ← x11HandleSelect auth reads writes l
      return io :: l

/-! The calls of all these. -/

section Uses

variable {P : IoOp → Prop} (hread : ∀ fd size, P (.read fd size))
  (hwrite : ∀ fd data, P (.write fd data)) (hclose : ∀ fd, P (.close fd))

include hwrite in
theorem writeOut_uses (fd : ℤ) (b : Buffer) : (writeOut fd b).Uses P := by
  refine (uses_op (hwrite fd b.data)).bind fun r => ?_
  rcases r with _ | n
  · trivial
  · change Prog.Uses _ (ite _ _ _)
    split_ifs <;> trivial

include hread in
theorem readIn_uses (fd : ℤ) (b : Buffer) : (readIn fd b).Uses P := by
  refine (uses_op (hread fd bufsiz)).bind fun r => ?_
  rcases r with _ | d
  · trivial
  · change Prog.Uses _ (ite _ _ _)
    split_ifs <;> trivial

include hclose in
theorem orFree_uses {io : IoX11} {step : IoProg (Option IoX11)}
    {next : IoX11 → IoProg (Option IoX11)} (hstep : step.Uses P)
    (hnext : ∀ io, (next io).Uses P) : (orFree io step next).Uses P := by
  refine hstep.bind fun r => ?_
  cases r with
  | none =>
      exact Prog.Uses.bind ((xclose_uses (hclose io.masterFd)).bind fun _ =>
        xclose_uses (hclose io.slaveFd)) fun _ => trivial
  | some io' => exact hnext io'

include hread hwrite hclose

theorem relay_uses (auth : Option Auth) (reads writes : FdSet) (io : IoX11) :
    (relay auth reads writes io).Uses P := by
  refine orFree_uses hclose ?_ fun io => orFree_uses hclose ?_ fun io =>
    orFree_uses hclose ?_ fun io => orFree_uses hclose ?_ fun io => trivial
  · unfold writeSlave
    split_ifs
    · exact (writeOut_uses hwrite _ _).bind fun _ => trivial
    · trivial
  · unfold readMaster
    split_ifs
    · exact (readIn_uses hread _ _).bind fun _ => trivial
    · trivial
  · unfold writeMaster
    split_ifs
    · exact (writeOut_uses hwrite _ _).bind fun _ => trivial
    · trivial
  · unfold readSlave
    split_ifs
    · exact (readIn_uses hread _ _).bind fun _ => trivial
    · trivial

/-- Relaying reads, writes and closes, and does nothing else. -/
theorem x11HandleSelect_uses (auth : Option Auth) (reads writes : FdSet) (l : IoX11List) :
    (x11HandleSelect auth reads writes l).Uses P := by
  induction l with
  | nil => trivial
  | cons entry l ih =>
      cases entry with
      | none => exact ih.bind fun _ => trivial
      | some io =>
          exact (relay_uses hread hwrite hclose auth reads writes io).bind fun _ =>
            ih.bind fun _ => trivial

end Uses

theorem x11HandleSelect_handling (auth : Option Auth) (reads writes : FdSet) (l : IoX11List) :
    (x11HandleSelect auth reads writes l).Uses Handling :=
  x11HandleSelect_uses (fun _ _ => trivial) (fun _ _ => trivial) (fun _ => trivial) auth reads writes l

/-- The calls that make a connection. -/
def Connecting : IoOp → Prop
  | .accept _ | .socket | .connect _ | .close _ | .unblockFd _ | .fchdir _ | .chdir
  | .getaddrinfo => True
  | _ => False

private theorem connecting_call (o : IoOp) (h : Connecting o) : (ioCall o).Uses Connecting :=
  uses_op h

theorem x11ConnectAddress_connecting (n : ℕ) : (x11ConnectAddress n).Uses Connecting := by
  induction n with
  | zero => trivial
  | succ n ih =>
      refine (connecting_call .socket trivial).bind fun fd => ?_
      cases fd with
      | none => exact ih
      | some fd =>
          refine (connecting_call (.connect fd) trivial).bind fun connected => ?_
          cases connected with
          | true => trivial
          | false => exact (xclose_uses trivial).bind fun _ => ih

theorem x11Connect_connecting (method : Option ConnectMethod) :
    (x11Connect method).Uses Connecting := by
  rcases method with _ | ⟨dirFd⟩ | _
  · trivial
  · refine Prog.Uses.bind ?_ fun _ => (connecting_call .chdir trivial).bind fun _ => trivial
    refine (connecting_call (.fchdir dirFd) trivial).bind fun entered => ?_
    cases entered with
    | false => trivial
    | true =>
        refine (connecting_call .socket trivial).bind fun fd => ?_
        cases fd with
        | none => trivial
        | some fd =>
            refine (connecting_call (.connect fd) trivial).bind fun connected => ?_
            cases connected with
            | true => trivial
            | false => exact (xclose_uses trivial).bind fun _ => trivial
  · refine (connecting_call .getaddrinfo trivial).bind fun addresses => ?_
    cases addresses with
    | none => trivial
    | some n => exact x11ConnectAddress_connecting n

theorem x11HandleNew_connecting (method : Option ConnectMethod) (x11Fd : ℤ) (reads : FdSet)
    (l : IoX11List) : (x11HandleNew method x11Fd reads l).Uses Connecting := by
  unfold x11HandleNew
  split_ifs
  · refine (connecting_call (.accept x11Fd) trivial).bind fun fd => ?_
    cases fd with
    | none => trivial
    | some acceptFd =>
        refine (x11Connect_connecting method).bind fun fd => ?_
        cases fd with
        | none => exact (xclose_uses trivial).bind fun _ => trivial
        | some connectFd =>
            exact (unblockFd_uses trivial).bind fun _ => (unblockFd_uses trivial).bind fun _ => trivial
  · trivial

theorem x11HandleNew_handling (method : Option ConnectMethod) (x11Fd : ℤ) (reads : FdSet)
    (l : IoX11List) : (x11HandleNew method x11Fd reads l).Uses Handling := by
  refine (x11HandleNew_connecting method x11Fd reads l).mono fun o ho => ?_
  cases o with
  | accept fd => trivial
  | socket => trivial
  | connect fd => trivial
  | close fd => trivial
  | unblockFd fd => trivial
  | fchdir fd => trivial
  | chdir => trivial
  | getaddrinfo => trivial
  | _ => exact ho.elim

end HasherPriv.IoLoop.X11
