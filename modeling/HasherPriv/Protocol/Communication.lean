/- GID: HasherPriv/Protocol/Communication
   layer: protocol
   source: communication.h
   digest: Commands, job types and the two fixed-size headers on the wire. -/

import HasherPriv.Foundations.Socket

set_option autoImplicit false
set_option relaxedAutoImplicit false

namespace HasherPriv.Protocol.Communication

open Foundations.ByteString (Bytes)
open Foundations.Socket (le32 ofLe32)

/-- `CMD_OPEN_SESSION`, the one command of the main service. -/
def cmdOpenSession : UInt32 := 1

/-- The job service commands of `cmd_enum_t`. -/
inductive JobCommand
  | type | fds | arguments | environ | chrootFd | personality | run
  deriving DecidableEq

/-- `CMD_JOB_*`: every command is one bit. -/
def JobCommand.bit : JobCommand → UInt32
  | .type => 2
  | .fds => 4
  | .arguments => 8
  | .environ => 16
  | .chrootFd => 32
  | .personality => 64
  | .run => 128

/-- The case of `switch (hdr.type)` that a word selects; `none` is `default`. -/
def JobCommand.ofWord (w : UInt32) : Option JobCommand :=
  if w = 2 then some .type
  else if w = 4 then some .fds
  else if w = 8 then some .arguments
  else if w = 16 then some .environ
  else if w = 32 then some .chrootFd
  else if w = 64 then some .personality
  else if w = 128 then some .run
  else none

@[simp] theorem JobCommand.ofWord_bit (c : JobCommand) : ofWord c.bit = some c := by
  cases c <;> rfl

theorem JobCommand.bit_of_ofWord {w : UInt32} {c : JobCommand} (h : ofWord w = some c) :
    w = c.bit := by
  unfold ofWord at h
  split_ifs at h with h₁ h₂ h₃ h₄ h₅ h₆ h₇ <;>
    simp only [Option.some.injEq] at h <;> subst h <;> assumption

theorem JobCommand.bit_injective : Function.Injective JobCommand.bit := by
  intro c d h
  have := JobCommand.ofWord_bit c
  rw [h, JobCommand.ofWord_bit] at this
  exact (Option.some.inj this).symm

theorem JobCommand.bit_and_bit (c d : JobCommand) : c.bit &&& d.bit = 0 ↔ c ≠ d := by
  cases c <;> cases d <;> decide

/-- A bit is absent from a union of masks exactly if it is absent from both. -/
theorem or_and_eq_zero (m b d : UInt32) : (m ||| b) &&& d = 0 ↔ m &&& d = 0 ∧ b &&& d = 0 := by
  have h : (m ||| b) &&& d = (m &&& d) ||| (b &&& d) := by
    apply UInt32.toBitVec_inj.mp
    ext i
    simp [Bool.and_or_distrib_right]
  rw [h, UInt32.or_eq_zero_iff]

/-- The six executable values of `job_enum_t`; `JOB_NONE` is none of them. -/
inductive JobType
  | getconf | killuid | getugid1 | chrootuid1 | getugid2 | chrootuid2
  deriving DecidableEq

def JobType.code : JobType → UInt32
  | .getconf => 1
  | .killuid => 2
  | .getugid1 => 3
  | .chrootuid1 => 4
  | .getugid2 => 5
  | .chrootuid2 => 6

/-- The case of `switch (job->type)` that a word selects; `none` is `default`. -/
def JobType.ofWord (w : UInt32) : Option JobType :=
  if w = 1 then some .getconf
  else if w = 2 then some .killuid
  else if w = 3 then some .getugid1
  else if w = 4 then some .chrootuid1
  else if w = 5 then some .getugid2
  else if w = 6 then some .chrootuid2
  else none

@[simp] theorem JobType.ofWord_code (t : JobType) : ofWord t.code = some t := by
  cases t <;> rfl

theorem JobType.code_of_ofWord {w : UInt32} {t : JobType} (h : ofWord w = some t) :
    w = t.code := by
  unfold ofWord at h
  split_ifs at h <;> simp only [Option.some.injEq] at h <;> subst h <;>
    assumption

/-- The executable types are the words from 1 to 6. -/
theorem JobType.ofWord_isSome (w : UInt32) :
    (ofWord w).isSome ↔ 1 ≤ w.toNat ∧ w.toNat ≤ 6 := by
  constructor
  · intro h
    obtain ⟨t, ht⟩ := Option.isSome_iff_exists.mp h
    rw [JobType.code_of_ofWord ht]
    cases t <;> decide
  · rintro ⟨h₁, h₂⟩
    have hw : w = UInt32.ofNat w.toNat := by simp
    have hn : w.toNat = 1 ∨ w.toNat = 2 ∨ w.toNat = 3 ∨ w.toNat = 4 ∨ w.toNat = 5 ∨
        w.toNat = 6 := by omega
    rcases hn with hn | hn | hn | hn | hn | hn <;> rw [hw, hn] <;> rfl

/-- Whether the job is one of the two that execute a program in the chroot. -/
def JobType.isChrootuid : JobType → Bool
  | .chrootuid1 | .chrootuid2 => true
  | .getconf | .killuid | .getugid1 | .getugid2 => false

/-- `cmd_header_t`. -/
structure CmdHeader where
  type : UInt32
  len : UInt32
  deriving DecidableEq

def CmdHeader.encode (hdr : CmdHeader) : Bytes := le32 hdr.type ++ le32 hdr.len

def CmdHeader.decode (b : Bytes) : CmdHeader := ⟨ofLe32 b, ofLe32 (b.drop 4)⟩

@[simp] theorem CmdHeader.decode_encode (hdr : CmdHeader) : decode hdr.encode = hdr := by
  simp [decode, encode]

/-- `CMD_STATUS_DONE`. -/
def cmdStatusDone : Int32 := 0

/-- `CMD_STATUS_FAILED`. -/
def cmdStatusFailed : Int32 := -1

/-- `srv_cmd_resp_t`. -/
structure SrvCmdResp where
  rc : Int32
  len : UInt32
  deriving DecidableEq

def SrvCmdResp.encode (rs : SrvCmdResp) : Bytes := le32 rs.rc.toUInt32 ++ le32 rs.len

def SrvCmdResp.decode (b : Bytes) : SrvCmdResp := ⟨⟨ofLe32 b⟩, ofLe32 (b.drop 4)⟩

@[simp] theorem SrvCmdResp.decode_encode (rs : SrvCmdResp) : decode rs.encode = rs := by
  simp [decode, encode]

end HasherPriv.Protocol.Communication
