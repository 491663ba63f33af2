/- GID: HasherPriv.Config.CallerData
   layer: configuration
   source: caller_data.h, caller_config.h, server_config.c
   digest: The variables that describe a caller, its configuration and the server's. -/

import HasherPriv.Config.ListOptions

set_option autoImplicit false
set_option relaxedAutoImplicit false

namespace HasherPriv.Config.CallerData

open Foundations.ByteString (Bytes str)
open ListOptions (StrList PrefixList)

/-- The caller a session server works for. -/
structure Caller where
  user : Bytes
  home : Bytes
  uid : UInt32
  gid : UInt32
  num : UInt32
  deriving DecidableEq

/-- The floors of `server_config.c`; a negative one is switched off. -/
structure Floors where
  minUid : Int32 := 34
  minGid : Int32 := 34
  deriving DecidableEq

/-- `valid_uid` and `valid_gid`: the floor is compared as an unsigned number. -/
def validId (floor : Int32) (id : UInt32) : Bool := floor < 0 ∨ floor.toUInt32 ≤ id

def Floors.validUid (f : Floors) (uid : UInt32) : Bool := validId f.minUid uid
def Floors.validGid (f : Floors) (gid : UInt32) : Bool := validId f.minGid gid

/-- A floor that is not switched off is what it says. -/
theorem le_of_validId {floor : Int32} {id : UInt32} (h : validId floor id) (h0 : 0 ≤ floor) :
    floor.toInt ≤ id.toNat := by
  have hle : floor.toUInt32 ≤ id := by
    simp only [validId, decide_eq_true_eq] at h
    exact h.resolve_left (Int32.not_lt.mpr h0)
  have hnat := UInt32.le_iff_toNat_le.mp hle
  rw [Int32.toNat_toUInt32_of_le h0, ← Int32.toNat_toInt] at hnat
  omega

/-- One line of `change_rlimit`. -/
structure Rlimit where
  name : Bytes
  hard : Option ℕ := none
  soft : Option ℕ := none
  deriving DecidableEq

/-- The variables of `caller_config.c`. -/
structure Settings where
  changeUser1 : Option Bytes := none
  changeUser2 : Option Bytes := none
  changeUid1 : UInt32 := 0
  changeUid2 : UInt32 := 0
  changeGid1 : UInt32 := 0
  changeGid2 : UInt32 := 0
  prefixes : PrefixList := ⟨none, []⟩
  changeUmask : ℕ := 0o22
  changeNice : ℕ := 8
  changeNproc : ℕ := 0
  allowedDevices : StrList := {}
  allowedMountpoints : StrList := {}
  requestedMountpoints : StrList := {}
  changeRlimit : List Rlimit :=
    ["cpu", "fsize", "data", "stack", "core", "rss", "nproc", "nofile", "memlock", "as", "locks",
      "sigpending", "msgqueue", "nice", "rtprio"].map fun name => { name := str name }
  timeElapsed : ℕ := 0
  timeIdle : ℕ := 0
  bytesWritten : ℕ := 0
  makedevConsole : Bool := false
  usePty : Bool := false
  term : Option Bytes := none
  shareIpc : Option Bool := none
  shareNetwork : Option Bool := none
  shareUts : Option Bool := none
  deriving DecidableEq

end HasherPriv.Config.CallerData
