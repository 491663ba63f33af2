/- GID: HasherPriv/Config/FileConfig
   layer: configuration
   source: file_config.c
   digest: Opening a configuration file and cutting its lines into names and values. -/

import HasherPriv.Chroot.Chdir
import HasherPriv.Foundations.Numerals
import Mathlib.Data.List.DropRight

set_option autoImplicit false
set_option relaxedAutoImplicit false

namespace HasherPriv.Config.FileConfig

open Foundations.ByteString
open Foundations.Numerals
open Foundations.Program
open Chroot.Syscall
open Chroot.Chdir

def maxConfigSize : ℕ := 16384

def sIfreg : ℕ := 0o100000

/-- `S_ISREG`. -/
def isReg (mode : ℕ) : Bool := mode &&& sIfmt = sIfreg

/-- `load_config`; `read` is what is done with the stream. -/
def loadConfig {α : Type} (who : Owners) (fname : Bytes) (read : ℕ → SysProg α) :
    SysProg α := do
  let file := text fname
  match ← call (.openFile fname) with
  | none => .die s!"open: {file}"
  | some fd =>
      match ← call (.fstat fd) with
      | none => .die s!"fstat: {file}"
      | some st =>
          validate who .rootOk st fname
          if ¬ isReg st.mode then .die s!"{file}: not a regular file"
          else if maxConfigSize < st.size then
            let size := st.size
            .die s!"{file}: file too large: {size}"
          else
            orDie (call (.fdopen fd)) s!"fdopen: {file}"
            let a ← read fd
            orDie (call (.fclose fd)) s!"fclose: {file}"
            return a

/-- The calls of `load_config` itself. -/
def IsConfigCall : Sys → Prop
  | .openFile _ | .fstat _ | .fdopen _ | .fclose _ => True
  | _ => False

theorem loadConfig_uses {α : Type} {P : Sys → Prop} (who : Owners) (fname : Bytes)
    {read : ℕ → SysProg α} (hP : ∀ o, IsConfigCall o → P o) (hread : ∀ fd, (read fd).Uses P) :
    (loadConfig who fname read).Uses P := by
  refine ⟨hP (.openFile fname) trivial, fun fd => ?_⟩
  rcases fd with _ | fd
  · trivial
  · refine ⟨hP (.fstat fd) trivial, fun st => ?_⟩
    rcases st with _ | st
    · trivial
    · have hfdopen : (call (.fdopen fd)).Uses P := uses_op (hP (.fdopen fd) trivial)
      have hfclose : (call (.fclose fd)).Uses P := uses_op (hP (.fclose fd) trivial)
      refine (validate_uses _ who .rootOk st fname).bind fun _ => ?_
      by_cases hreg : isReg st.mode
      · by_cases hsize : maxConfigSize < st.size
        · simp [hreg, hsize]
        · simp only [hreg, hsize, not_true_eq_false, if_false]
          exact (orDie_uses hfdopen _).bind fun _ => (hread fd).bind fun a =>
            (orDie_uses hfclose _).bind fun _ => uses_ret _ a
      · simp [hreg]

/-- What a line of a configuration file says. -/
inductive Line
  | blank
  | option (name value : Bytes)
  | syntaxError
  deriving DecidableEq

/-- The body of the loop of `fread_config_name_value`, up to the call of `func`. -/
def parseLine (buf : Bytes) : Line :=
  match buf.dropWhile isSpace with
  | [] => .blank
  | c :: rest =>
      if c = 35 then .blank
      else if 61 ∉ c :: rest then .syntaxError
      else
        let left := ((c :: rest).takeWhile (· ≠ 61)).rdropWhile isSpace
        let right := ((c :: rest).dropWhile (· ≠ 61)).tail
        if left = [] then .syntaxError
        else .option left ((right.dropWhile isSpace).rdropWhile isSpace)

/-- `func` on the options of the lines, in order; a complaint ends the process. -/
def eachOption {σ : Type} (func : Bytes → Bytes → σ → Except String σ) (fname : Bytes) :
    ℕ → List Bytes → σ → Except String σ
  | _, [], s => .ok s
  | line, buf :: bufs, s =>
      match parseLine buf with
      | .blank => eachOption func fname (line + 1) bufs s
      | .syntaxError =>
          let file := text fname
          .error s!"{file}: syntax error at line {line}"
      | .option name value => do
          let s ← func name value s
          eachOption func fname (line + 1) bufs s

/-- `fread_config_name_value`. -/
def freadConfigNameValue {σ : Type} (func : Bytes → Bytes → σ → Except String σ)
    (fname : Bytes) (s : σ) (fd : ℕ) : SysProg σ := do
  let (bufs, ferror) ← call (.fgetsAll fd)
  match eachOption func fname 1 bufs s with
  | .error why => .die why
  | .ok s =>
      if ferror then
        let file := text fname
        .die s!"fgets: {file}"
      else return s

end HasherPriv.Config.FileConfig
