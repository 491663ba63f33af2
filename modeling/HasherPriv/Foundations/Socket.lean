/- GID: HasherPriv/Foundations/Socket
   layer: library
   source: none
   digest: Stream sockets with descriptor passing, as calls. -/

import HasherPriv.Foundations.ByteString
import HasherPriv.Foundations.Program

set_option autoImplicit false
set_option relaxedAutoImplicit false

namespace HasherPriv.Foundations.Socket

open ByteString (Bytes)
open Program (Prog Event Runs)

/-! Words on the wire. The two ends of a local socket share one byte order. -/

/-- A 32-bit word as four bytes, least significant first. -/
def le32 (x : UInt32) : Bytes :=
  [UInt8.ofNat x.toNat, UInt8.ofNat (x.toNat / 256), UInt8.ofNat (x.toNat / 65536),
    UInt8.ofNat (x.toNat / 16777216)]

/-- The word stored in the first four bytes. -/
def ofLe32 (b : Bytes) : UInt32 :=
  UInt32.ofNat ((b.getD 0 0).toNat + 256 * (b.getD 1 0).toNat + 65536 * (b.getD 2 0).toNat +
    16777216 * (b.getD 3 0).toNat)

@[simp] theorem ofLe32_le32_append (x : UInt32) (rest : Bytes) :
    ofLe32 (le32 x ++ rest) = x := by
  apply UInt32.toNat_inj.mp
  have hx := x.toNat_lt
  simp only [ofLe32, le32, List.cons_append, List.getD_cons_zero, List.getD_cons_succ,
    UInt8.toNat_ofNat', UInt32.toNat_ofNat']
  omega

@[simp] theorem ofLe32_le32 (x : UInt32) : ofLe32 (le32 x) = x := by
  simpa only [List.append_nil] using ofLe32_le32_append x []

@[simp] theorem drop_le32_append (x : UInt32) (rest : Bytes) :
    (le32 x ++ rest).drop 4 = rest := rfl

/-! Calls. -/

/-- One control message with the descriptors it carries. -/
structure Cmsg where
  level : ℤ
  type : ℤ
  fds : List ℕ
  deriving DecidableEq

/-- What `recvmsg` fills in. -/
structure Message where
  data : Bytes
  cmsgs : List Cmsg
  deriving DecidableEq

/-- `errno` after a failed send, as far as callers tell it apart. -/
inductive SendError
  | epipe
  | other
  deriving DecidableEq

/-- Socket calls and the two heap calls made between them. `control` is the size of the
control buffer handed to `recvmsg`. -/
inductive SockOp
  | sendmsg (data : Bytes) (cmsgs : List Cmsg)
  | recvmsg (size control : ℕ) (waitall : Bool)
  | malloc (size : ℕ)
  | calloc (nmemb size : ℕ)
  deriving DecidableEq

/-- The answers: bytes sent or an error, a message or an error, whether memory was found. -/
@[reducible] def SockRes : SockOp → Type
  | .sendmsg _ _ => Except SendError ℕ
  | .recvmsg _ _ _ => Option Message
  | .malloc _ => Bool
  | .calloc _ _ => Bool

abbrev SockProg := Prog SockOp SockRes

private abbrev sockCall (o : SockOp) : SockProg (SockRes o) := .op o

abbrev sendmsg (data : Bytes) (cmsgs : List Cmsg) : SockProg (Except SendError ℕ) :=
  sockCall (.sendmsg data cmsgs)
abbrev recvmsg (size control : ℕ) (waitall : Bool) : SockProg (Option Message) :=
  sockCall (.recvmsg size control waitall)
abbrev malloc (size : ℕ) : SockProg Bool := sockCall (.malloc size)
abbrev calloc (nmemb size : ℕ) : SockProg Bool := sockCall (.calloc nmemb size)

/-- The messages received during a run, in order. -/
def received (tr : List (Event SockRes)) : List Message :=
  tr.filterMap fun
    | ⟨.recvmsg _ _ _, r⟩ => r
    | ⟨.sendmsg _ _, _⟩ | ⟨.malloc _, _⟩ | ⟨.calloc _ _, _⟩ => none

@[simp] theorem received_append (t₁ t₂ : List (Event SockRes)) :
    received (t₁ ++ t₂) = received t₁ ++ received t₂ := List.filterMap_append

/-- The call is not a receive. -/
def SockOp.Quiet : SockOp → Prop
  | .recvmsg _ _ _ => False
  | .sendmsg _ _ | .malloc _ | .calloc _ _ => True

/-- A run that makes no receive call receives nothing. -/
theorem received_of_quiet {tr : List (Event SockRes)} (h : ∀ e ∈ tr, e.1.Quiet) :
    received tr = [] := by
  refine List.filterMap_eq_nil_iff.mpr ?_
  rintro ⟨o, r⟩ he
  cases o with
  | recvmsg size control waitall => exact (h _ he).elim
  | sendmsg data cmsgs => rfl
  | malloc size => rfl
  | calloc nmemb size => rfl

/-- The bytes handed to `sendmsg` during a run, in order. -/
def sent (tr : List (Event SockRes)) : Bytes :=
  tr.flatMap fun
    | ⟨.sendmsg data _, _⟩ => data
    | ⟨.recvmsg _ _ _, _⟩ | ⟨.malloc _, _⟩ | ⟨.calloc _ _, _⟩ => []

end HasherPriv.Foundations.Socket
