/- GID: HasherPriv/IoLoop/Calls
   layer: input and output loop
   source: fd_set.c, io_loop.c, parent.c
   digest: The system calls of the I/O loop, sets of descriptors and partly filled buffers. -/

import HasherPriv.Foundations.ByteString
import HasherPriv.Foundations.Program

set_option autoImplicit false
set_option relaxedAutoImplicit false

namespace HasherPriv.IoLoop.Calls

open Foundations.ByteString (Bytes)
open Foundations.Program

/-- `BUFSIZ`. -/
def bufsiz : ℕ := 8192

/-! Descriptor sets. A negative number stands for no descriptor. -/

abbrev FdSet := List ℕ

/-- The two sets for `pselect` with the greatest number in them. -/
structure Sets where
  reads : FdSet := []
  writes : FdSet := []
  maxFd : ℤ := 0

/-- `fds_add_fd`, for either set. -/
def Sets.addRead (fd : ℤ) (s : Sets) : Sets :=
  if fd < 0 then s
  else { s with reads := fd.toNat :: s.reads, maxFd := if fd > s.maxFd then fd else s.maxFd }

def Sets.addWrite (fd : ℤ) (s : Sets) : Sets :=
  if fd < 0 then s
  else { s with writes := fd.toNat :: s.writes, maxFd := if fd > s.maxFd then fd else s.maxFd }

/-- `fds_isset`. -/
def fdsIsset (fds : FdSet) (fd : ℤ) : Bool := 0 ≤ fd ∧ fd.toNat ∈ fds

@[simp] theorem Sets.addRead_writes (fd : ℤ) (s : Sets) : (s.addRead fd).writes = s.writes := by
  unfold addRead
  split_ifs <;> rfl

@[simp] theorem Sets.addWrite_reads (fd : ℤ) (s : Sets) : (s.addWrite fd).reads = s.reads := by
  unfold addWrite
  split_ifs <;> rfl

@[simp] theorem Sets.mem_addRead {fd : ℤ} {s : Sets} {n : ℕ} :
    n ∈ (s.addRead fd).reads ↔ n ∈ s.reads ∨ fd = n := by
  by_cases hneg : fd < 0
  · rw [addRead, if_pos hneg]
    exact ⟨.inl, fun h => h.resolve_right (by omega)⟩
  · have hcons : (s.addRead fd).reads = fd.toNat :: s.reads := by rw [addRead, if_neg hneg]
    have hiff : n = fd.toNat ↔ fd = n := by omega
    rw [hcons, List.mem_cons, hiff]
    exact or_comm

@[simp] theorem Sets.mem_addWrite {fd : ℤ} {s : Sets} {n : ℕ} :
    n ∈ (s.addWrite fd).writes ↔ n ∈ s.writes ∨ fd = n := by
  by_cases hneg : fd < 0
  · rw [addWrite, if_pos hneg]
    exact ⟨.inl, fun h => h.resolve_right (by omega)⟩
  · have hcons : (s.addWrite fd).writes = fd.toNat :: s.writes := by rw [addWrite, if_neg hneg]
    have hiff : n = fd.toNat ↔ fd = n := by omega
    rw [hcons, List.mem_cons, hiff]
    exact or_comm

theorem fdsIsset_natCast {fds : FdSet} {n : ℕ} : fdsIsset fds n = true ↔ n ∈ fds := by
  simp [fdsIsset]

theorem exists_of_fdsIsset {fds : FdSet} {fd : ℤ} (h : fdsIsset fds fd = true) :
    ∃ n : ℕ, fd = n ∧ n ∈ fds := by
  simp only [fdsIsset, Bool.decide_and, Bool.and_eq_true, decide_eq_true_eq] at h
  exact ⟨fd.toNat, by omega, h.2⟩

/-! Calls. -/

/-- The answer of `pselect`: what is ready of what was asked for. -/
inductive Selected (reads writes : FdSet)
  | ready (r : { r : FdSet // r ⊆ reads }) (w : { w : FdSet // w ⊆ writes })
  | timeout
  | interrupted
  | failed

/-- Where nothing was asked for, nothing is ready. -/
def noneReady : { fds : FdSet // fds ⊆ [] } := ⟨[], List.nil_subset []⟩

/-- What `fd_recv` leaves behind: its result, the descriptor if one was copied, and the data. -/
structure Received (len : ℕ) where
  ok : Bool
  fd : Option ℕ
  data : { d : Bytes // d.length = len }

inductive IoOp
  /-- The three variables that signal handlers set. -/
  | childPid
  | sigalrmArrived
  | sigwinchArrived
  | ttyCopyWinsize (master slave : ℤ)
  | pselect (reads writes : FdSet) (timeout : ℕ)
  /-- `read_retry`. -/
  | read (fd : ℤ) (size : ℕ)
  /-- `write_loop`. -/
  | write (fd : ℤ) (data : Bytes)
  /-- `write_loop` as `xwrite_all` calls it, and `total_bytes_written` at that moment. -/
  | writeAll (fd : ℤ) (data : Bytes) (total : ℕ)
  | accept (fd : ℤ)
  | socket
  | connect (fd : ℤ)
  | close (fd : ℤ)
  | unblockFd (fd : ℤ)
  | fchdir (fd : ℤ)
  | chdir
  | getaddrinfo
  /-- `fd_recv` for one descriptor. -/
  | fdRecv (fd : ℤ) (len : ℕ)
  /-- `getsockname`, and whether the name is the expected one. -/
  | getsockname (fd : ℤ)
  deriving DecidableEq

/-- The answers. A read fills at most the size asked for, and a write takes at most what it is
given; `none` is an error, and the list of `getaddrinfo` is known by its length. -/
@[reducible] def IoRes : IoOp → Type
  | .childPid | .sigalrmArrived | .sigwinchArrived => Bool
  | .ttyCopyWinsize _ _ => Bool
  | .pselect reads writes _ => Selected reads writes
  | .read _ size => Option { d : Bytes // d.length ≤ size }
  | .write _ data | .writeAll _ data _ => Option (Fin (data.length + 1))
  | .accept _ => Option ℕ
  | .socket => Option ℕ
  | .connect _ => Bool
  | .close _ => Unit
  | .unblockFd _ => Bool
  | .fchdir _ => Bool
  | .chdir => Bool
  | .getaddrinfo => Option ℕ
  | .fdRecv _ len => Received len
  | .getsockname _ => Option Bool

abbrev IoProg := Prog IoOp IoRes

abbrev ioCall (o : IoOp) : IoProg (IoRes o) := .op o

/-- `xclose`: the variable is -1 afterwards. -/
def xclose (fd : ℤ) : IoProg Unit := if fd < 0 then return () else ioCall (.close fd)

/-- `unblock_fd`. -/
def unblockFd (fd : ℤ) : IoProg Unit := do
  if ← ioCall (.unblockFd fd) then return () else .die "fcntl"

/-- The calls of the handlers, but for those of `xwrite_all`. -/
def Handling : IoOp → Prop
  | .read _ _ | .write _ _ | .accept _ | .socket | .connect _ | .close _ | .unblockFd _
  | .fchdir _ | .chdir | .getaddrinfo | .fdRecv _ _ | .getsockname _ => True
  | _ => False

theorem handling_call (o : IoOp) (h : Handling o) : (ioCall o).Uses Handling := uses_op h

theorem xclose_uses {P : IoOp → Prop} {fd : ℤ} (h : P (.close fd)) : (xclose fd).Uses P := by
  rw [xclose]
  split_ifs
  · trivial
  · exact uses_op h

theorem unblockFd_uses {P : IoOp → Prop} {fd : ℤ} (h : P (.unblockFd fd)) :
    (unblockFd fd).Uses P :=
  (uses_op h).bind fun r => by cases r <;> trivial

theorem xclose_handling (fd : ℤ) : (xclose fd).Uses Handling := xclose_uses trivial

theorem unblockFd_handling (fd : ℤ) : (unblockFd fd).Uses Handling := unblockFd_uses trivial

/-! Partly filled buffers. -/

/-- An array of `BUFSIZ` bytes of which the first `avail` are in use. -/
structure Buffer where
  bytes : Bytes
  avail : ℕ
  size : bytes.length = bufsiz
  le : avail ≤ bufsiz
  deriving DecidableEq

/-- The bytes in use. -/
def Buffer.data (b : Buffer) : Bytes := b.bytes.take b.avail

def Buffer.empty : Buffer where
  bytes := List.replicate bufsiz 0
  avail := 0
  size := List.length_replicate
  le := Nat.zero_le _

/-- A read into the array. -/
def Buffer.fill (b : Buffer) (d : { d : Bytes // d.length ≤ bufsiz }) : Buffer where
  bytes := d.val ++ b.bytes.drop d.val.length
  avail := d.val.length
  size := by
    have hd := d.property
    simp [b.size]
    omega
  le := d.property

/-- The first `n` bytes have been written: `memmove` what is left to the front. -/
def Buffer.consume (b : Buffer) (n : ℕ) : Buffer where
  bytes :=
    if n < b.avail then (b.bytes.drop n).take (b.avail - n) ++ b.bytes.drop (b.avail - n)
    else b.bytes
  avail := b.avail - n
  size := by
    have hle := b.le
    split_ifs with hlt
    · simp [b.size]
      omega
    · exact b.size
  le := (Nat.sub_le _ _).trans b.le

@[simp] theorem Buffer.data_length (b : Buffer) : b.data.length = b.avail := by
  simp [data, b.size, b.le]

@[simp] theorem Buffer.fill_data (b : Buffer) (d : { d : Bytes // d.length ≤ bufsiz }) :
    (b.fill d).data = d.val := by simp [fill, data]

theorem Buffer.data_eq_nil {b : Buffer} : b.data = [] ↔ b.avail = 0 := by
  rw [← List.length_eq_zero_iff, data_length]

/-- What is written and what is left is what was there. -/
theorem Buffer.consume_data (b : Buffer) (n : ℕ) : (b.consume n).data = b.data.drop n := by
  unfold consume data
  dsimp only
  split_ifs with hlt
  · have hlen : ((b.bytes.drop n).take (b.avail - n)).length = b.avail - n := by
      have hle := b.le
      simp [b.size]
      omega
    rw [List.take_left' hlen, List.drop_take]
  · have hzero : b.avail - n = 0 := by omega
    rw [hzero, List.take_zero]
    symm
    exact List.drop_eq_nil_iff.mpr (by simp; omega)

end HasherPriv.IoLoop.Calls
