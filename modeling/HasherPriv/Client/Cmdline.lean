/- GID: HasherPriv/Client/Cmdline
   layer: client
   source: cmdline.c
   digest: The command line of the client. -/

import HasherPriv.Foundations.Numerals
import HasherPriv.Protocol.Communication

set_option autoImplicit false
set_option relaxedAutoImplicit false

namespace HasherPriv.Client.Cmdline

open Foundations.ByteString
open Foundations.Numerals
open Protocol.Communication

/-- How the parser ends the program. -/
inductive Leave
  | showUsage (message : String)
  | printHelp
  | printVersion
  | noDirectory (path : String)
  deriving DecidableEq

/-- What the parser leaves in `caller_num`, `chrootFd` and its two results. -/
structure Parsed where
  callerNum : ℕ := 0
  job : JobType
  args : Option (List CString) := none
  chrootFd : ℤ := -1
  deriving DecidableEq

def intMax : ℕ := 2 ^ 31 - 1

def getCallerNum (s : Bytes) : Except Leave ℕ :=
  let invalid : Leave := .showUsage s!"-{text s}: invalid option"
  if s = [] then .error invalid
  else
    let n := strtoul 10 s
    if n.rest ≠ [] ∨ intMax < n.value then .error invalid else .ok n.value

/-- The jobs without arguments. -/
private def simpleJob (job : JobType) (name : Bytes) (rest : List CString) : Except Leave Parsed :=
  if rest ≠ [] then .error (.showUsage s!"{text name}: invalid usage") else .ok { job := job }

/-- The jobs that execute a program; `openDirectory` is `open (path, O_RDONLY|O_DIRECTORY)`. -/
private def chrootJob (openDirectory : Bytes → Option ℕ) (job : JobType) (name : Bytes) :
    List CString → Except Leave Parsed
  | path :: program :: args =>
      match openDirectory path.bytes with
      | none => .error (.noDirectory (text path.bytes))
      | some fd => .ok { job := job, args := some (program :: args), chrootFd := fd }
  | [] | [_] => .error (.showUsage s!"{text name}: invalid usage")

/-- The job argument and what follows it. -/
def parseJob (openDirectory : Bytes → Option ℕ) : List CString → Except Leave Parsed
  | [] => .error (.showUsage "insufficient arguments")
  | av :: rest =>
      if av.bytes = str "getconf" then simpleJob .getconf av.bytes rest
      else if av.bytes = str "killuid" then simpleJob .killuid av.bytes rest
      else if av.bytes = str "getugid1" then simpleJob .getugid1 av.bytes rest
      else if av.bytes = str "chrootuid1" then chrootJob openDirectory .chrootuid1 av.bytes rest
      else if av.bytes = str "getugid2" then simpleJob .getugid2 av.bytes rest
      else if av.bytes = str "chrootuid2" then chrootJob openDirectory .chrootuid2 av.bytes rest
      else .error (.showUsage s!"{text av.bytes}: invalid argument")

/-- `parse_cmdline`; the first argument is the name of the program. -/
def parseCmdline (openDirectory : Bytes → Option ℕ) : List CString → Except Leave Parsed
  | [] | [_] => .error (.showUsage "insufficient arguments")
  | _ :: av :: rest =>
      if av.bytes.head? = some 45 then
        if av.bytes = str "-h" ∨ av.bytes = str "--help" then .error .printHelp
        else if av.bytes = str "--version" then .error .printVersion
        else do
          let callerNum ← getCallerNum av.bytes.tail
          let parsed ← parseJob openDirectory rest
          return { parsed with callerNum := callerNum }
      else parseJob openDirectory (av :: rest)

/-- Arguments and a directory are there exactly for the jobs that need them. -/
structure Parsed.Proper (p : Parsed) : Prop where
  simple : p.job.isChrootuid = false → p.args = none
  chrootuid : p.job.isChrootuid = true → ∃ program args, p.args = some (program :: args)

private theorem parseJob_proper {openDirectory : Bytes → Option ℕ} {av : List CString} {p : Parsed}
    (h : parseJob openDirectory av = .ok p) : p.Proper := by
  have simple : ∀ {job : JobType} {name : Bytes} {rest : List CString},
      job.isChrootuid = false → simpleJob job name rest = .ok p → p.Proper := by
    intro job name rest hjob hp
    unfold simpleJob at hp
    split_ifs at hp
    obtain rfl := Except.ok.inj hp
    exact ⟨fun _ => rfl, fun htrue => absurd htrue (by simp [hjob])⟩
  have chroot : ∀ {job : JobType} {name : Bytes} {rest : List CString},
      job.isChrootuid = true → chrootJob openDirectory job name rest = .ok p → p.Proper := by
    intro job name rest hjob hp
    unfold chrootJob at hp
    split at hp
    · split at hp
      · cases hp
      · obtain rfl := Except.ok.inj hp
        exact ⟨fun hfalse => absurd hfalse (by simp [hjob]), fun _ => ⟨_, _, rfl⟩⟩
    · cases hp
    · cases hp
  cases av with
  | nil => cases h
  | cons av rest =>
      simp only [parseJob] at h
      split_ifs at h
      · exact simple rfl h
      · exact simple rfl h
      · exact simple rfl h
      · exact chroot rfl h
      · exact simple rfl h
      · exact chroot rfl h

theorem parseCmdline_proper {openDirectory : Bytes → Option ℕ} {argv : List CString} {p : Parsed}
    (h : parseCmdline openDirectory argv = .ok p) : p.Proper := by
  match argv, h with
  | [], h => cases h
  | [_], h => cases h
  | name :: av :: rest, h =>
      simp only [parseCmdline] at h
      split_ifs at h
      · cases hnum : getCallerNum av.bytes.tail with
        | error e =>
            rw [hnum] at h
            cases h
        | ok callerNum =>
            cases hjob : parseJob openDirectory rest with
            | error e =>
                rw [hnum, hjob] at h
                cases h
            | ok parsed =>
                rw [hnum, hjob] at h
                obtain rfl := Except.ok.inj h
                have hproper := parseJob_proper hjob
                exact ⟨hproper.simple, hproper.chrootuid⟩
      · exact parseJob_proper h

end HasherPriv.Client.Cmdline
