/- GID: HasherPriv/IoLoop/Relay
   layer: input and output loop
   source: io_x11.c
   digest: What is read from one end of an X11 connection is what is written to the other. -/

import HasherPriv.IoLoop.X11

set_option autoImplicit false
set_option relaxedAutoImplicit false

namespace HasherPriv.IoLoop.Relay

open Foundations.ByteString (Bytes)
open Foundations.Program
open Calls
open X11

abbrev Events := List (Event IoRes)

/-! The bytes of a run. -/

/-- The bytes that have been written to `fd`. -/
def written (fd : ℤ) (tr : Events) : Bytes :=
  tr.flatMap fun
    | ⟨.write fd' data, some n⟩ => if fd' = fd then data.take n.val else []
    | _ => []

/-- The bytes of each read from `fd` that has brought some. -/
def chunks (fd : ℤ) (tr : Events) : List Bytes :=
  tr.filterMap fun
    | ⟨.read fd' _, some d⟩ => if fd' = fd ∧ d.val ≠ [] then some d.val else none
    | _ => none

/-- A read from `fd` has failed or met the end of the stream. -/
def Ends (fd : ℤ) (tr : Events) : Prop :=
  ∃ (size : ℕ) (r : IoRes (.read fd size)), (⟨.read fd size, r⟩ : Event IoRes) ∈ tr ∧
    ∀ d, r = some d → d.val = []

@[simp] theorem written_append (fd : ℤ) (tr tr' : Events) :
    written fd (tr ++ tr') = written fd tr ++ written fd tr' := List.flatMap_append

@[simp] theorem chunks_append (fd : ℤ) (tr tr' : Events) :
    chunks fd (tr ++ tr') = chunks fd tr ++ chunks fd tr' := List.filterMap_append

theorem ends_append {fd : ℤ} {tr tr' : Events} :
    Ends fd (tr ++ tr') ↔ Ends fd tr ∨ Ends fd tr' := by
  constructor
  · rintro ⟨size, r, hmem, hr⟩
    exact (List.mem_append.mp hmem).imp (fun h => ⟨size, r, h, hr⟩) fun h => ⟨size, r, h, hr⟩
  · rintro (⟨size, r, hmem, hr⟩ | ⟨size, r, hmem, hr⟩)
    · exact ⟨size, r, List.mem_append_left _ hmem, hr⟩
    · exact ⟨size, r, List.mem_append_right _ hmem, hr⟩

/-- What is sent on: the first chunk goes through `io_check_auth_data`. -/
def substituted (auth : Option Auth) : List Bytes → Bytes
  | [] => []
  | c :: cs => ioCheckAuthData auth c ++ cs.flatten

theorem substituted_append (auth : Option Auth) {cs : List Bytes} (h : cs ≠ []) (c : Bytes) :
    substituted auth (cs ++ [c]) = substituted auth cs ++ c := by
  cases cs with
  | nil => exact absurd rfl h
  | cons c' cs => simp [substituted]

/-! Reading and writing. -/

private theorem writeOut_returns {fd : ℤ} {b : Buffer} {tr : Events} {r : Option Buffer}
    (h : Runs (writeOut fd b) tr (.returned r)) :
    (r = none ∧ ∀ fd', written fd' tr = [] ∧ chunks fd' tr = [] ∧ ¬ Ends fd' tr) ∨
      ∃ b', r = some b' ∧ written fd tr ++ b'.data = b.data ∧
        (∀ fd', fd' ≠ fd → written fd' tr = []) ∧ ∀ fd', chunks fd' tr = [] ∧ ¬ Ends fd' tr := by
  have hends : ∀ (x : IoRes (.write fd b.data)) fd',
      ¬ Ends fd' [(⟨.write fd b.data, x⟩ : Event IoRes)] := by
    rintro x fd' ⟨size, r, hmem, -⟩
    cases List.mem_singleton.mp hmem
  obtain ⟨x, rest, rfl, hx⟩ := returns_op_bind.mp h
  cases x with
  | none =>
      obtain ⟨rfl, rfl⟩ := returns_ret.mp hx
      exact .inl ⟨rfl, fun fd' => ⟨rfl, rfl, hends _ fd'⟩⟩
  | some n =>
      change Runs (ite _ _ _) _ _ at hx
      split_ifs at hx with hzero
      · obtain ⟨rfl, rfl⟩ := returns_ret.mp hx
        refine .inl ⟨rfl, fun fd' => ⟨?_, rfl, hends _ fd'⟩⟩
        simp [written, hzero]
      · obtain ⟨rfl, rfl⟩ := returns_ret.mp hx
        refine .inr ⟨b.consume n, rfl, ?_, fun fd' hne => ?_, fun fd' => ⟨rfl, hends _ fd'⟩⟩
        · simp [written, Buffer.consume_data]
        · simp [written, hne.symm]

private theorem readIn_returns {fd : ℤ} {b : Buffer} {tr : Events} {r : Option Buffer}
    (h : Runs (readIn fd b) tr (.returned r)) :
    (∀ fd', written fd' tr = []) ∧
      ((r = none ∧ (∀ fd', chunks fd' tr = []) ∧ ∀ fd', Ends fd' tr → fd' = fd) ∨
        ∃ b', r = some b' ∧ b'.data ≠ [] ∧ chunks fd tr = [b'.data] ∧
          (∀ fd', fd' ≠ fd → chunks fd' tr = []) ∧ ∀ fd', ¬ Ends fd' tr) := by
  obtain ⟨x, rest, rfl, hx⟩ := returns_op_bind.mp h
  have hends : ∀ fd', Ends fd' [(⟨.read fd bufsiz, x⟩ : Event IoRes)] →
      fd' = fd ∧ ∀ d, x = some d → d.val = [] := by
    rintro fd' ⟨size, r, hmem, hr⟩
    cases List.mem_singleton.mp hmem
    exact ⟨rfl, hr⟩
  cases x with
  | none =>
      obtain ⟨rfl, rfl⟩ := returns_ret.mp hx
      exact ⟨fun _ => rfl, .inl ⟨rfl, fun _ => rfl, fun fd' he => (hends fd' he).1⟩⟩
  | some d =>
      change Runs (ite _ _ _) _ _ at hx
      split_ifs at hx with hnil
      · obtain ⟨rfl, rfl⟩ := returns_ret.mp hx
        refine ⟨fun _ => rfl, .inl ⟨rfl, fun fd' => ?_, fun fd' he => (hends fd' he).1⟩⟩
        simp [chunks, hnil]
      · obtain ⟨rfl, rfl⟩ := returns_ret.mp hx
        refine ⟨fun _ => rfl, .inr ⟨b.fill d, rfl, by simpa using hnil, ?_, fun fd' hne => ?_,
          fun fd' he => ?_⟩⟩
        · simp [chunks, hnil]
        · simp [chunks, hne.symm]
        · exact hnil ((hends fd' he).2 d rfl)

/-! One connection. -/

/-- What has happened to each descriptor since it is that of the connection. -/
abbrev History := ℤ → Events

def History.append (hist : History) (tr : Events) : History := fun fd => hist fd ++ tr

@[simp] theorem History.append_apply (hist : History) (tr : Events) (fd : ℤ) :
    hist.append tr fd = hist fd ++ tr := rfl

@[simp] theorem History.append_nil (hist : History) : hist.append [] = hist :=
  funext fun fd => List.append_nil (hist fd)

@[simp] theorem History.append_append (hist : History) (t₁ t₂ : Events) :
    (hist.append t₁).append t₂ = hist.append (t₁ ++ t₂) :=
  funext fun fd => List.append_assoc (hist fd) t₁ t₂

/-- Both directions of a connection. -/
structure Faithful (auth : Option Auth) (io : IoX11) (hist : History) : Prop where
  distinct : io.masterFd ≠ io.slaveFd
  toMaster : written io.masterFd (hist io.masterFd) ++ io.slaveBuf.data =
    substituted auth (chunks io.slaveFd (hist io.slaveFd))
  toSlave : written io.slaveFd (hist io.slaveFd) ++ io.masterBuf.data =
    (chunks io.masterFd (hist io.masterFd)).flatten
  authenticated : io.authenticated = true ↔ chunks io.slaveFd (hist io.slaveFd) ≠ []

/-- Only the calls on the two descriptors of a connection matter to it. -/
theorem Faithful.congr {auth : Option Auth} {io : IoX11} {hist hist' : History} (h : Faithful auth io hist)
    (hsame : ∀ fd, fd = io.masterFd ∨ fd = io.slaveFd →
      written fd (hist' fd) = written fd (hist fd) ∧ chunks fd (hist' fd) = chunks fd (hist fd)) :
    Faithful auth io hist' := by
  obtain ⟨hmw, hmc⟩ := hsame io.masterFd (Or.inl rfl)
  obtain ⟨hsw, hsc⟩ := hsame io.slaveFd (Or.inr rfl)
  refine ⟨h.distinct, ?_, ?_, ?_⟩
  · rw [hmw, hsc]
    exact h.toMaster
  · rw [hsw, hmc]
    exact h.toSlave
  · rw [hsc]
    exact h.authenticated

/-- What was read from an end that has ended has been written to the other end. -/
structure Drained (auth : Option Auth) (io : IoX11) (hist : History) (tr : Events) : Prop where
  master : Ends io.masterFd tr →
    written io.slaveFd (hist io.slaveFd ++ tr) =
      (chunks io.masterFd (hist io.masterFd ++ tr)).flatten
  slave : Ends io.slaveFd tr →
    written io.masterFd (hist io.masterFd ++ tr) =
      substituted auth (chunks io.slaveFd (hist io.slaveFd ++ tr))

/-- How a part of `relay` comes out: the connection is kept, or dropped. -/
def Outcome (auth : Option Auth) (io : IoX11) (hist : History) (tr : Events) :
    Option IoX11 → Prop
  | some io' => Faithful auth io' (hist.append tr) ∧ io'.masterFd = io.masterFd ∧
      io'.slaveFd = io.slaveFd ∧ ∀ fd, ¬ Ends fd tr
  | none => Drained auth io hist tr

/-- Nothing happens. -/
private theorem Outcome.skip {auth : Option Auth} {io : IoX11} {hist : History}
    {tr : Events} {r : Option IoX11} (hf : Faithful auth io hist)
    (h : Runs (.ret (some io) : IoProg (Option IoX11)) tr (.returned r)) :
    Outcome auth io hist tr r := by
  obtain ⟨rfl, rfl⟩ := returns_ret.mp h
  refine ⟨by simpa using hf, rfl, rfl, ?_⟩
  rintro fd ⟨size, r, hmem, -⟩
  cases hmem

private theorem writeSlave_outcome {auth : Option Auth} {writes : FdSet} {io : IoX11}
    {hist : History} {tr : Events} {r : Option IoX11} (hf : Faithful auth io hist)
    (h : Runs (writeSlave writes io) tr (.returned r)) : Outcome auth io hist tr r := by
  unfold writeSlave at h
  split_ifs at h with hcond
  · obtain ⟨b, t₁, t₂, rfl, hb, hr⟩ := returns_bind.mp h
    obtain ⟨rfl, rfl⟩ := returns_ret.mp hr
    rw [List.append_nil]
    rcases writeOut_returns hb with ⟨rfl, hnothing⟩ | ⟨b', rfl, hdata, hother, hquiet⟩
    · exact ⟨fun he => absurd he (hnothing _).2.2, fun he => absurd he (hnothing _).2.2⟩
    · refine ⟨⟨hf.distinct, ?_, ?_, ?_⟩, rfl, rfl, fun fd => (hquiet fd).2⟩
      · simpa [hother _ hf.distinct, (hquiet _).1] using hf.toMaster
      · simpa [(hquiet _).1, hdata] using hf.toSlave
      · simpa [(hquiet _).1] using hf.authenticated
  · exact .skip hf h

private theorem writeMaster_outcome {auth : Option Auth} {writes : FdSet} {io : IoX11}
    {hist : History} {tr : Events} {r : Option IoX11} (hf : Faithful auth io hist)
    (h : Runs (writeMaster writes io) tr (.returned r)) : Outcome auth io hist tr r := by
  unfold writeMaster at h
  split_ifs at h with hcond
  · obtain ⟨b, t₁, t₂, rfl, hb, hr⟩ := returns_bind.mp h
    obtain ⟨rfl, rfl⟩ := returns_ret.mp hr
    rw [List.append_nil]
    rcases writeOut_returns hb with ⟨rfl, hnothing⟩ | ⟨b', rfl, hdata, hother, hquiet⟩
    · exact ⟨fun he => absurd he (hnothing _).2.2, fun he => absurd he (hnothing _).2.2⟩
    · refine ⟨⟨hf.distinct, ?_, ?_, ?_⟩, rfl, rfl, fun fd => (hquiet fd).2⟩
      · simpa [(hquiet _).1, hdata] using hf.toMaster
      · simpa [hother _ hf.distinct.symm, (hquiet _).1] using hf.toSlave
      · simpa [(hquiet _).1] using hf.authenticated
  · exact .skip hf h

private theorem readMaster_outcome {auth : Option Auth} {reads : FdSet} {io : IoX11}
    {hist : History} {tr : Events} {r : Option IoX11} (hf : Faithful auth io hist)
    (h : Runs (readMaster reads io) tr (.returned r)) : Outcome auth io hist tr r := by
  unfold readMaster at h
  split_ifs at h with hcond
  · obtain ⟨b, t₁, t₂, rfl, hb, hr⟩ := returns_bind.mp h
    obtain ⟨rfl, rfl⟩ := returns_ret.mp hr
    rw [List.append_nil]
    have hempty : io.masterBuf.data = [] := Buffer.data_eq_nil.mpr hcond.1
    have hslave := hf.toSlave
    rw [hempty, List.append_nil] at hslave
    obtain ⟨hwritten, ⟨rfl, hchunks, hends⟩ | ⟨b', rfl, -, hchunk, hother, hends⟩⟩ :=
      readIn_returns hb
    · refine ⟨fun _ => ?_, fun he => absurd (hends _ he) hf.distinct.symm⟩
      simpa [hwritten, hchunks] using hslave
    · refine ⟨⟨hf.distinct, ?_, ?_, ?_⟩, rfl, rfl, hends⟩
      · simpa [hwritten, hother _ hf.distinct.symm] using hf.toMaster
      · simp [hwritten, hchunk, hslave]
      · simpa [hother _ hf.distinct.symm] using hf.authenticated
  · exact .skip hf h

private theorem readSlave_outcome {auth : Option Auth} {reads : FdSet} {io : IoX11}
    {hist : History} {tr : Events} {r : Option IoX11} (hf : Faithful auth io hist)
    (h : Runs (readSlave auth reads io) tr (.returned r)) : Outcome auth io hist tr r := by
  unfold readSlave at h
  split_ifs at h with hcond
  · obtain ⟨b, t₁, t₂, rfl, hb, hr⟩ := returns_bind.mp h
    obtain ⟨rfl, rfl⟩ := returns_ret.mp hr
    rw [List.append_nil]
    have hempty : io.slaveBuf.data = [] := Buffer.data_eq_nil.mpr hcond.1
    have hmaster := hf.toMaster
    rw [hempty, List.append_nil] at hmaster
    obtain ⟨hwritten, ⟨rfl, hchunks, hends⟩ | ⟨b', rfl, hne, hchunk, hother, hends⟩⟩ :=
      readIn_returns hb
    · refine ⟨fun he => absurd (hends _ he) hf.distinct, fun _ => ?_⟩
      simpa [hwritten, hchunks] using hmaster
    · have hslave := hf.toSlave
      by_cases hauth : io.authenticated = true
      · have hkept := IoX11.checkAuthData_of_authenticated auth { io with slaveBuf := b' } hauth
        have hbefore := hf.authenticated.mp hauth
        simp only [Option.map_some, hkept]
        refine ⟨⟨hf.distinct, ?_, ?_, ?_⟩, rfl, rfl, hends⟩
        · simp [hwritten, hchunk, hmaster, substituted_append auth hbefore]
        · simpa [hwritten, hother _ hf.distinct] using hslave
        · simp [hauth, hchunk]
      · have hbefore : chunks io.slaveFd (hist io.slaveFd) = [] := by
          by_contra hsome
          exact hauth (hf.authenticated.mpr hsome)
        rw [Bool.not_eq_true] at hauth
        have hchecked := IoX11.checkAuthData_data auth { io with slaveBuf := b' } hauth
        rw [hbefore] at hmaster
        simp only [Option.map_some]
        refine ⟨⟨by simpa using hf.distinct, ?_, ?_, ?_⟩, by simp, by simp, hends⟩
        · rw [hchecked]
          simp [hwritten, hchunk, hbefore, substituted, hmaster]
        · simpa [hwritten, hother _ hf.distinct] using hslave
        · simp [hchunk]
  · exact .skip hf h

private theorem ioX11Free_silent {io : IoX11} {tr : Events}
    (h : Runs (ioX11Free io) tr (.returned ())) (fd : ℤ) :
    written fd tr = [] ∧ chunks fd tr = [] ∧ ¬ Ends fd tr := by
  have close : ∀ {fd' : ℤ} {t : Events}, Runs (xclose fd') t (.returned ()) →
      written fd t = [] ∧ chunks fd t = [] ∧ ¬ Ends fd t := by
    intro fd' t ht
    unfold xclose at ht
    split_ifs at ht
    · obtain ⟨rfl, -⟩ := returns_ret.mp ht
      refine ⟨rfl, rfl, ?_⟩
      rintro ⟨size, r, hmem, -⟩
      cases hmem
    · obtain ⟨r, rest, rfl, hr⟩ := returns_call.mp ht
      obtain ⟨rfl, -⟩ := returns_ret.mp hr
      refine ⟨rfl, rfl, ?_⟩
      rintro ⟨size, r, hmem, -⟩
      cases List.mem_singleton.mp hmem
  obtain ⟨_, t₁, t₂, rfl, h₁, h₂⟩ := returns_bind.mp h
  obtain ⟨hw, hc, he⟩ := close h₁
  obtain ⟨hw', hc', he'⟩ := close h₂
  exact ⟨by simp [hw, hw'], by simp [hc, hc'], fun hends => (ends_append.mp hends).elim he he'⟩

/-- A half-step and what follows it. -/
private theorem orFree_outcome {auth : Option Auth} {io : IoX11} {hist : History}
    {tr : Events} {r : Option IoX11} {step : IoProg (Option IoX11)}
    {next : IoX11 → IoProg (Option IoX11)}
    (hstep : ∀ {t s}, Runs step t (.returned s) → Outcome auth io hist t s)
    (hnext : ∀ {io' hist' t s}, Faithful auth io' hist' → Runs (next io') t (.returned s) →
      Outcome auth io' hist' t s)
    (h : Runs (orFree io step next) tr (.returned r)) : Outcome auth io hist tr r := by
  obtain ⟨s, t₁, t₂, rfl, h₁, h₂⟩ := returns_bind.mp h
  have hfirst := hstep h₁
  cases s with
  | none =>
      obtain ⟨_, t₃, t₄, rfl, h₃, h₄⟩ := returns_bind.mp h₂
      obtain ⟨rfl, rfl⟩ := returns_ret.mp h₄
      have hsilent := ioX11Free_silent h₃
      rw [List.append_nil]
      refine ⟨fun he => ?_, fun he => ?_⟩
      · have hd := hfirst.master ((ends_append.mp he).resolve_right (hsilent _).2.2)
        simpa [(hsilent _).1, (hsilent _).2.1] using hd
      · have hd := hfirst.slave ((ends_append.mp he).resolve_right (hsilent _).2.2)
        simpa [(hsilent _).1, (hsilent _).2.1] using hd
  | some io' =>
      obtain ⟨hf', hmaster, hslave, hno⟩ := hfirst
      have hsecond := hnext hf' h₂
      cases r with
      | none =>
          refine ⟨fun he => ?_, fun he => ?_⟩
          · have hd := hsecond.master (hmaster ▸ (ends_append.mp he).resolve_left (hno _))
            simpa [List.append_assoc, hmaster, hslave] using hd
          · have hd := hsecond.slave (hslave ▸ (ends_append.mp he).resolve_left (hno _))
            simpa [List.append_assoc, hmaster, hslave] using hd
      | some io'' =>
          obtain ⟨hf'', hmaster', hslave', hno'⟩ := hsecond
          exact ⟨by simpa [List.append_assoc] using hf'', hmaster'.trans hmaster, hslave'.trans hslave,
            fun fd he => (ends_append.mp he).elim (hno fd) (hno' fd)⟩

theorem relay_outcome {auth : Option Auth} {reads writes : FdSet} {io : IoX11} {hist : History}
    {tr : Events} {r : Option IoX11} (hf : Faithful auth io hist)
    (h : Runs (relay auth reads writes io) tr (.returned r)) : Outcome auth io hist tr r := by
  refine orFree_outcome (writeSlave_outcome hf) (fun hf₁ h₁ => ?_) h
  refine orFree_outcome (readMaster_outcome hf₁) (fun hf₂ h₂ => ?_) h₁
  refine orFree_outcome (writeMaster_outcome hf₂) (fun hf₃ h₃ => ?_) h₂
  exact orFree_outcome (readSlave_outcome hf₃) (fun hf₄ h₄ => .skip hf₄ h₄) h₃

end HasherPriv.IoLoop.Relay
