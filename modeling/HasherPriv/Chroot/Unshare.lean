/- GID: HasherPriv/Chroot/Unshare
   layer: chroot
   source: unshare.c, net.c
   digest: Leaving the namespaces of the client, and what is set up in the new ones. -/

import HasherPriv.Chroot.Namespaces
import HasherPriv.Chroot.Syscall
import HasherPriv.Foundations.Contracts

set_option autoImplicit false
set_option relaxedAutoImplicit false

namespace HasherPriv.Chroot.Unshare

open Foundations.ByteString
open Foundations.Program
open Foundations.Contracts
open Namespaces (Ns)
open Syscall (Answer MountCall)

/-! The code. -/

/-- `unshare` answers `expected` where `errno` is `ENOSYS`, `EINVAL` or `EPERM`. -/
inductive UnshareCall
  | unshare (flags : ℕ)
  | sethostname (name : Bytes)
  | socketRtnetlink
  | ifNametoindex (name : Bytes)
  /-- The request sets `IFF_UP` of the interface. -/
  | sendNewlink (fd : ℕ) (index : ℕ)
  | close (fd : ℕ)
  | perrorMsg (text : String)
  deriving DecidableEq

@[reducible] def UnshareRes : UnshareCall → Type
  | .unshare _ => Answer
  | .sethostname _ => Bool
  | .socketRtnetlink => Option ℕ
  | .ifNametoindex _ => ℕ
  | .sendNewlink _ _ | .close _ => Bool
  | .perrorMsg _ => Unit

abbrev UnshareProg := Prog UnshareCall UnshareRes

abbrev ucall (o : UnshareCall) : UnshareProg (UnshareRes o) := .op o

/-- `do_unshare`; it returns -1 for `false`. An unset option is -1, which is not 0. -/
def doUnshare (cloneFlags : ℕ) (cloneName : String) (shareFlag : Option Bool)
    (shareName : String) : UnshareProg Bool :=
  if shareFlag = some true then .ret false
  else do
    match ← ucall (.unshare cloneFlags) with
    | .ok => return true
    | .expected =>
        ucall (.perrorMsg s!"{shareName} isolation is not supported by the kernel")
        if shareFlag ≠ some false then return false else .die ""
    | .failed => .die cloneName

def unshareIpc (shareIpc : Option Bool) : UnshareProg Unit := do
  let _ ← doUnshare Ns.ipc.nstype "CLONE_NEWIPC" shareIpc "IPC namespace"
  return ()

def unshareMount : UnshareProg Unit := do
  let _ ← doUnshare Ns.mnt.nstype "CLONE_NEWNS" (some false) "mount namespace"
  return ()

def setupNetwork : UnshareProg Unit := do
  match ← ucall .socketRtnetlink with
  | none => .die "socket"
  | some rtnetlinkSk =>
      let index ← ucall (.ifNametoindex (str "lo"))
      if ← ucall (.sendNewlink rtnetlinkSk index) then
        if ← ucall (.close rtnetlinkSk) then return () else .die "close"
      else .die "send"

def unshareNetwork (shareNetwork : Option Bool) : UnshareProg Unit := do
  if ← doUnshare Ns.net.nstype "CLONE_NEWNET" shareNetwork "network" then setupNetwork
  else return ()

def localhost : Bytes := str "localhost.localdomain"

def unshareUts (shareUts : Option Bool) : UnshareProg Unit := do
  if ← doUnshare Ns.uts.nstype "CLONE_NEWUTS" shareUts "UTS namespace" then
    if ← ucall (.sethostname localhost) then return ()
    else .die s!"sethostname: {text localhost}"
  else return ()

/-! The namespaces. -/

/-- What the calls can change in a namespace. What is mounted in it may also appear in its
`peers`. -/
structure Content where
  hostname : Bytes
  loopbackUp : Bool
  mounts : List MountCall
  peers : List ℕ
  deriving DecidableEq

/-- What a new namespace starts with that is made out of the namespace `old`. -/
def Content.fresh (ns : Ns) (old : ℕ) (k : Content) : Content :=
  match ns with
  | .mnt => { k with peers := old :: k.peers }
  | .net => { k with loopbackUp := false }
  | .ipc | .uts => k

/-- The namespaces are numbered as they are made; `current` are those of the process, `joined`
those that `setup_ns` has left it in, and `refused` the kinds that the kernel has not made.
`linkRefused` says that a request for the loopback interface came to nothing, `slaveRefused` that
the mounts could not be cut off from those of the peers. -/
structure World where
  made : ℕ
  current : Ns → ℕ
  joined : Ns → ℕ
  refused : Ns → Bool
  linkRefused : Bool
  slaveRefused : Bool
  content : ℕ → Content

/-- The process moves to a new namespace. -/
def World.enterNew (w : World) (ns : Ns) : World :=
  { w with
    made := w.made + 1
    current := Function.update w.current ns w.made
    content := Function.update w.content w.made
      ((w.content (w.current ns)).fresh ns (w.current ns)) }

/-- The content of the namespace that the process is in. -/
def World.modify (w : World) (ns : Ns) (f : Content → Content) : World :=
  { w with
    content := Function.update w.content (w.current ns) (f (w.content (w.current ns))) }

/-- `LOOPBACK_IFINDEX`: the index of `lo` in every network namespace. -/
def loopbackIfindex : ℕ := 1

/-- The request for an interface is not acknowledged: that it is sent does not mean that the kernel
does what it asks for. -/
def Answers : (o : UnshareCall) → World → UnshareRes o → World → Prop
  | .unshare flags, w, r, w' => ∃ ns : Ns, ns.nstype = flags ∧
      match r with
      | .ok => w' = w.enterNew ns
      | .expected => w' = { w with refused := Function.update w.refused ns true }
      | .failed => w' = w
  | .sethostname name, w, r, w' =>
      w' = if r then w.modify .uts fun k => { k with hostname := name } else w
  | .ifNametoindex name, w, r, w' =>
      w' = w ∧ (name = str "lo" → r = 0 ∨ r = loopbackIfindex)
  | .sendNewlink _ index, w, r, w' =>
      w' = { w with linkRefused := true } ∨ r = true ∧ index = loopbackIfindex ∧
        w' = w.modify .net fun k => { k with loopbackUp := true }
  | _, w, _, w' => w' = w

/-- What has been set up in a new namespace. -/
def Dressed (w : World) : Ns → Prop
  | .uts => (w.content (w.current .uts)).hostname = localhost
  | .net => w.linkRefused = false → (w.content (w.current .net)).loopbackUp = true
  | .mnt | .ipc => True

/-- Where a process is after the function for one kind: in a new namespace that is ready, unless
the namespace is to be shared, or need not be left and cannot. -/
def Settled (start : ℕ) (shareFlag : Option Bool) (w : World) (ns : Ns) : Prop :=
  if shareFlag = some true ∨ w.refused ns then
    shareFlag ≠ some false ∧ w.current ns = w.joined ns
  else start ≤ w.current ns ∧ Dressed w ns

/-- What was there at the start is as it was, its mounts if they could be cut off from the new
ones. -/
def Untouched (start : ℕ) (w₀ w : World) : Prop :=
  ∀ n < start, (w.content n).hostname = (w₀.content n).hostname ∧
    (w.content n).loopbackUp = (w₀.content n).loopbackUp ∧
    (w.slaveRefused = false → w.content n = w₀.content n)

def Bounded (w : World) : Prop := ∀ ns, w.current ns < w.made

/-- A function for one kind of namespace leaves the other kinds, and what has been made. -/
structure Frame (ns : Ns) (w w' : World) : Prop where
  made : w.made ≤ w'.made
  joined : w'.joined = w.joined
  bounded : Bounded w'
  current : ∀ other, other ≠ ns → w'.current other = w.current other
  refused : ∀ other, other ≠ ns → w'.refused other = w.refused other
  linkRefused : ns ≠ .net → w'.linkRefused = w.linkRefused
  slaveRefused : w'.slaveRefused = w.slaveRefused
  content : ∀ n < w.made, w'.content n = w.content n

/-- The process has not left its namespace of this kind. -/
structure Unsettled (w : World) (ns : Ns) : Prop where
  current : w.current ns = w.joined ns
  refused : w.refused ns = false

theorem nstype_injective : Function.Injective Ns.nstype := by
  intro a b h
  cases a <;> cases b <;> first | rfl | exact absurd h (by decide)

section Worlds

variable {start : ℕ} {w₀ w w' : World} {ns other : Ns}

theorem Untouched.refl (start : ℕ) (w : World) : Untouched start w w :=
  fun _ _ => ⟨rfl, rfl, fun _ => rfl⟩

theorem Untouched.frame (h : Untouched start w₀ w) (hstart : start ≤ w.made)
    (hframe : Frame ns w w') : Untouched start w₀ w' := by
  intro n hn
  rw [hframe.content n (by omega), hframe.slaveRefused]
  exact h n hn

theorem Dressed.frame (h : Dressed w other) (hbounded : Bounded w) (hother : other ≠ ns)
    (hframe : Frame ns w w') : Dressed w' other := by
  cases other with
  | uts =>
      rw [Dressed, hframe.current _ hother, hframe.content _ (hbounded _)]
      exact h
  | net =>
      rw [Dressed, hframe.current _ hother, hframe.content _ (hbounded _),
        hframe.linkRefused hother.symm]
      exact h
  | mnt => trivial
  | ipc => trivial

theorem Settled.frame {shareFlag : Option Bool} (h : Settled start shareFlag w other)
    (hbounded : Bounded w) (hother : other ≠ ns) (hframe : Frame ns w w') :
    Settled start shareFlag w' other := by
  unfold Settled at h ⊢
  rw [hframe.refused other hother, hframe.current other hother, hframe.joined]
  split_ifs at h ⊢
  · exact h
  · exact ⟨h.1, h.2.frame hbounded hother hframe⟩

theorem Unsettled.frame (h : Unsettled w other) (hother : other ≠ ns) (hframe : Frame ns w w') :
    Unsettled w' other := by
  constructor
  · rw [hframe.current other hother, hframe.joined]
    exact h.current
  · rw [hframe.refused other hother]
    exact h.refused

theorem enterNew_current : (w.enterNew ns).current ns = w.made := Function.update_self _ _ _

theorem enterNew_frame (hbounded : Bounded w) : Frame ns w (w.enterNew ns) := by
  refine ⟨Nat.le_succ _, rfl, ?_, ?_, fun _ _ => rfl, fun _ => rfl, rfl, ?_⟩
  · intro other
    by_cases hother : other = ns
    · subst hother
      rw [enterNew_current]
      exact Nat.lt_succ_self _
    · have hkept : (w.enterNew ns).current other = w.current other :=
        Function.update_of_ne hother _ _
      rw [hkept]
      exact Nat.lt_succ_of_lt (hbounded other)
  · intro other hother
    exact Function.update_of_ne hother _ _
  · intro n hn
    exact Function.update_of_ne (Nat.ne_of_lt hn) _ _

theorem modify_content (f : Content → Content) (n : ℕ) (hn : n ≠ w.current ns) :
    (w.modify ns f).content n = w.content n := Function.update_of_ne hn _ _

theorem modify_current (w : World) (ns : Ns) (f : Content → Content) :
    (w.modify ns f).content (w.current ns) = f (w.content (w.current ns)) :=
  Function.update_self _ _ _

theorem modify_new_frame (hbounded : Bounded w) (f : Content → Content) :
    Frame ns w ((w.enterNew ns).modify ns f) := by
  have hnew := @enterNew_frame w ns hbounded
  refine ⟨hnew.made, hnew.joined, hnew.bounded, hnew.current, hnew.refused, hnew.linkRefused,
    hnew.slaveRefused, ?_⟩
  intro n hn
  rw [modify_content f n, hnew.content n hn]
  rw [enterNew_current]
  exact Nat.ne_of_lt hn

/-- The request for the loopback interface comes to nothing. -/
theorem refuseLink_frame (h : Frame .net w w') : Frame .net w { w' with linkRefused := true } :=
  ⟨h.made, h.joined, h.bounded, h.current, h.refused, fun hne => (hne rfl).elim, h.slaveRefused,
    h.content⟩

theorem refuse_frame (hbounded : Bounded w) :
    Frame ns w { w with refused := Function.update w.refused ns true } := by
  refine ⟨Nat.le_refl _, rfl, hbounded, fun _ _ => rfl, ?_, fun _ => rfl, rfl, fun _ _ => rfl⟩
  intro other hother
  exact Function.update_of_ne hother _ _

theorem Frame.refl (hbounded : Bounded w) : Frame ns w w :=
  ⟨Nat.le_refl _, rfl, hbounded, fun _ _ => rfl, fun _ _ => rfl, fun _ => rfl, rfl,
    fun _ _ => rfl⟩

end Worlds

/-! The functions. -/

section Functions

variable {start : ℕ} {w₀ w : World} {ns : Ns} {shareFlag : Option Bool}

/-- No call touches what was there at the start. -/
abbrev Spares (start : ℕ) (w₀ : World) (p : UnshareProg Unit) (post : World → Prop)
    (w : World) : Prop :=
  Ensures Answers (fun _ _ _ w' => Untouched start w₀ w') p (fun _ w' => post w') w

/-- The three ways out of `do_unshare`, and what may follow each. -/
theorem doUnshare_spares {cloneName shareName : String} {k : Bool → UnshareProg Unit}
    {post : World → Prop} (hw : Untouched start w₀ w) (hstart : start ≤ w.made)
    (hbounded : Bounded w)
    (hnew : shareFlag ≠ some true → Spares start w₀ (k true) post (w.enterNew ns))
    (hshared : shareFlag = some true → Spares start w₀ (k false) post w)
    (hrefused : shareFlag ≠ some false → Spares start w₀ (k false) post
      { w with refused := Function.update w.refused ns true }) :
    Spares start w₀ ((doUnshare ns.nstype cloneName shareFlag shareName).bind k) post w := by
  rw [doUnshare]
  by_cases htrue : shareFlag = some true
  · rw [if_pos htrue]
    exact hshared htrue
  · rw [if_neg htrue]
    rintro r w' ⟨ns', hns, hr⟩
    obtain rfl := nstype_injective hns
    cases r with
    | ok =>
        obtain rfl := hr
        exact ⟨hw.frame hstart (enterNew_frame hbounded), hnew htrue⟩
    | expected =>
        obtain rfl := hr
        have huntouched := hw.frame hstart (@refuse_frame w ns' hbounded)
        refine ⟨huntouched, ?_⟩
        rintro _ _ rfl
        refine ⟨huntouched, ?_⟩
        show Ensures _ _ (Prog.bind (ite _ _ _) _) _ _
        by_cases hfalse : shareFlag ≠ some false
        · rw [if_pos hfalse]
          exact hrefused hfalse
        · rw [if_neg hfalse]
          trivial
    | failed =>
        obtain rfl := hr
        exact ⟨hw, trivial⟩

/-- A function for one kind leaves the process where it should be, and the other kinds alone. -/
def Settles (start : ℕ) (shareFlag : Option Bool) (ns : Ns) (w w' : World) : Prop :=
  Frame ns w w' ∧ Settled start shareFlag w' ns

theorem settles_shared (hbounded : Bounded w) (hun : Unsettled w ns)
    (hshared : shareFlag = some true) : Settles start shareFlag ns w w := by
  refine ⟨.refl hbounded, ?_⟩
  rw [Settled, if_pos (.inl hshared)]
  refine ⟨?_, hun.current⟩
  rw [hshared]
  decide

theorem settles_refused (hbounded : Bounded w) (hun : Unsettled w ns)
    (hflag : shareFlag ≠ some false) :
    Settles start shareFlag ns w { w with refused := Function.update w.refused ns true } := by
  refine ⟨refuse_frame hbounded, ?_⟩
  rw [Settled, if_pos (.inr (Function.update_self _ _ _))]
  exact ⟨hflag, hun.current⟩

theorem settles_new {w' : World} (hstart : start ≤ w.made) (hun : Unsettled w ns)
    (hflag : shareFlag ≠ some true) (hframe : Frame ns w w') (hcurrent : w'.current ns = w.made)
    (hrefused : w'.refused ns = w.refused ns) (hdressed : Dressed w' ns) :
    Settles start shareFlag ns w w' := by
  refine ⟨hframe, ?_⟩
  have hnot : ¬ (shareFlag = some true ∨ w'.refused ns = true) := by
    rintro (hshared | hrefused')
    · exact hflag hshared
    · rw [hrefused, hun.refused] at hrefused'
      cases hrefused'
  rw [Settled, if_neg hnot, hcurrent]
  exact ⟨hstart, hdressed⟩

/-- Where nothing is set up in the new namespace. -/
theorem plain_settles {cloneName shareName : String} (hw : Untouched start w₀ w)
    (hstart : start ≤ w.made) (hbounded : Bounded w) (hun : Unsettled w ns)
    (hplain : ∀ w', Dressed w' ns) :
    Spares start w₀ ((doUnshare ns.nstype cloneName shareFlag shareName).bind fun _ => .ret ())
      (Settles start shareFlag ns w) w := by
  apply doUnshare_spares hw hstart hbounded
  · intro hflag
    exact settles_new hstart hun hflag (enterNew_frame hbounded) enterNew_current rfl (hplain _)
  · intro hshared
    exact settles_shared hbounded hun hshared
  · intro hflag
    exact settles_refused hbounded hun hflag

theorem unshareIpc_settles (hw : Untouched start w₀ w) (hstart : start ≤ w.made)
    (hbounded : Bounded w) (hun : Unsettled w .ipc) :
    Spares start w₀ (unshareIpc shareFlag) (Settles start shareFlag .ipc w) w :=
  plain_settles hw hstart hbounded hun fun _ => trivial

theorem unshareMount_settles (hw : Untouched start w₀ w) (hstart : start ≤ w.made)
    (hbounded : Bounded w) (hun : Unsettled w .mnt) :
    Spares start w₀ unshareMount (Settles start (some false) .mnt w) w :=
  plain_settles hw hstart hbounded hun fun _ => trivial

theorem unshareUts_settles (hw : Untouched start w₀ w) (hstart : start ≤ w.made)
    (hbounded : Bounded w) (hun : Unsettled w .uts) :
    Spares start w₀ (unshareUts shareFlag) (Settles start shareFlag .uts w) w := by
  apply doUnshare_spares hw hstart hbounded
  · rintro hflag r w' hr
    obtain rfl := hr
    cases r with
    | true =>
        have hframe : Frame .uts w ((w.enterNew .uts).modify .uts fun k =>
            { k with hostname := localhost }) := modify_new_frame hbounded _
        have hcurrent : (w.enterNew .uts).current .uts = w.made := enterNew_current
        refine ⟨hw.frame hstart hframe, settles_new hstart hun hflag hframe hcurrent rfl ?_⟩
        exact congrArg Content.hostname (modify_current (w.enterNew .uts) .uts
          fun k => { k with hostname := localhost })
    | false => exact ⟨hw.frame hstart (enterNew_frame hbounded), trivial⟩
  · intro hshared
    exact settles_shared hbounded hun hshared
  · intro hflag
    exact settles_refused hbounded hun hflag

theorem unshareNetwork_settles (hw : Untouched start w₀ w) (hstart : start ≤ w.made)
    (hbounded : Bounded w) (hun : Unsettled w .net) :
    Spares start w₀ (unshareNetwork shareFlag) (Settles start shareFlag .net w) w := by
  apply doUnshare_spares hw hstart hbounded
  · intro hflag
    have hnew := @enterNew_frame w .net hbounded
    have hcurrent : (w.enterNew .net).current .net = w.made := enterNew_current
    have huntouched := hw.frame hstart hnew
    rintro fd w₁ rfl
    refine ⟨huntouched, ?_⟩
    cases fd with
    | none => trivial
    | some fd =>
        rintro index w₂ ⟨rfl, -⟩
        refine ⟨huntouched, ?_⟩
        intro sent w₃ hsent
        have hsettles : Settles start shareFlag .net w w₃ := by
          rcases hsent with rfl | ⟨-, -, rfl⟩
          · exact settles_new hstart hun hflag (refuseLink_frame hnew) hcurrent rfl nofun
          · refine settles_new hstart hun hflag (modify_new_frame hbounded _) hcurrent rfl ?_
            exact fun _ => congrArg Content.loopbackUp (modify_current (w.enterNew .net) .net
              fun k => { k with loopbackUp := true })
        refine ⟨hw.frame hstart hsettles.1, ?_⟩
        cases sent with
        | true =>
            rintro closed w₄ rfl
            refine ⟨hw.frame hstart hsettles.1, ?_⟩
            cases closed with
            | true => exact hsettles
            | false => trivial
        | false => trivial
  · intro hshared
    exact settles_shared hbounded hun hshared
  · intro hflag
    exact settles_refused hbounded hun hflag

end Functions

end HasherPriv.Chroot.Unshare
