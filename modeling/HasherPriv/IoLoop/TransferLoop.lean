/- GID: HasherPriv/IoLoop/TransferLoop
   layer: input and output loop
   source: io_loop.c, parent.c
   digest: Loops of reads and of writes move a prefix of the buffer, and report how much it is. -/

import HasherPriv.Foundations.Answers
import HasherPriv.IoLoop.WriteLoop

set_option autoImplicit false
set_option relaxedAutoImplicit false

namespace HasherPriv.IoLoop.TransferLoop

open Foundations.ByteString (Bytes)
open Foundations.Program
open Foundations.Answers
open Foundations.Expansion
open Calls
open Log
open WriteLoop

/-- The variables of the loops, and what is in the buffer. -/
structure Progress where
  offset : ℕ
  count : ℕ
  buffer : Bytes

/-- What a call returns, and what is in the buffer after it. -/
structure Moved where
  block : ℤ
  buffer : Bytes

/-- A turn of the loops of `read_loop` and `write_loop`. -/
def transferTurn (transfer : Progress → IoProg Moved) (s : Progress) :
    IoProg (Progress ⊕ Moved) :=
  if 0 < s.count then do
    let m ← transfer s
    if m.block ≤ 0 then return .inr ⟨if s.offset ≠ 0 then s.offset else m.block, m.buffer⟩
    else return .inl ⟨s.offset + m.block.toNat, s.count - m.block.toNat, m.buffer⟩
  else return .inr ⟨s.offset, s.buffer⟩

/-- `write_retry` of these bytes. -/
def writeBlock (fd : ℤ) (data buffer : Bytes) : IoProg Moved := do
  match ← ioCall (.write fd data) with
  | none => return ⟨-1, buffer⟩
  | some block => return ⟨block.val, buffer⟩

/-- `write_retry (fd, &buffer[offset], count)`. -/
def writeRetry (fd : ℤ) (s : Progress) : IoProg Moved :=
  writeBlock fd ((s.buffer.drop s.offset).take s.count) s.buffer

/-- `read_retry (fd, &buffer[offset], count)`. -/
def readRetry (fd : ℤ) (s : Progress) : IoProg Moved := do
  match ← ioCall (.read fd s.count) with
  | none => return ⟨-1, s.buffer⟩
  | some d =>
      return ⟨d.val.length,
        s.buffer.take s.offset ++ d.val ++ s.buffer.drop (s.offset + d.val.length)⟩

def writeTurn (fd : ℤ) : Progress → IoProg (Progress ⊕ Moved) := transferTurn (writeRetry fd)

def readTurn (fd : ℤ) : Progress → IoProg (Progress ⊕ Moved) := transferTurn (readRetry fd)

/-- The start, with as many bytes to move as the buffer has. -/
def start (buffer : Bytes) : Progress := ⟨0, buffer.length, buffer⟩

/-! The calls of a run. -/

/-- What a write has taken. -/
def taken : Event IoRes → Bytes
  | ⟨.write _ data, r⟩ => data.take (r.elim 0 Fin.val)
  | _ => []

/-- What a read has brought. -/
def brought : Event IoRes → Bytes
  | ⟨.read _ _, r⟩ => r.elim [] Subtype.val
  | _ => []

/-- The result of a call that moved nothing. -/
def failure : Event IoRes → Option ℤ
  | ⟨.write _ _, none⟩ => some (-1)
  | ⟨.write _ _, some n⟩ => if n.val = 0 then some 0 else none
  | ⟨.read _ _, none⟩ => some (-1)
  | ⟨.read _ _, some d⟩ => if d.val = [] then some 0 else none
  | _ => none

theorem failure_values {e : Event IoRes} {f : ℤ} (h : failure e = some f) : f = 0 ∨ f = -1 := by
  unfold failure at h
  split at h
  · exact Or.inr (Option.some.inj h).symm
  · split_ifs at h
    exact Or.inl (Option.some.inj h).symm
  · exact Or.inr (Option.some.inj h).symm
  · split_ifs at h
    exact Or.inl (Option.some.inj h).symm
  · cases h

def written (tr : List (Event IoRes)) : Bytes := tr.flatMap taken

def received (tr : List (Event IoRes)) : Bytes := tr.flatMap brought

theorem written_append (tr₁ tr₂ : List (Event IoRes)) :
    written (tr₁ ++ tr₂) = written tr₁ ++ written tr₂ := List.flatMap_append

theorem received_append (tr₁ tr₂ : List (Event IoRes)) :
    received (tr₁ ++ tr₂) = received tr₁ ++ received tr₂ := List.flatMap_append

/-! Any such loop. -/

/-- What one call does: it keeps `I`, whose second argument are the calls so far, and moves at
most what it was asked for. -/
def Keeps (transfer : Progress → IoProg Moved) (I : Progress → List (Event IoRes) → Prop) : Prop :=
  ∀ {s hist tr m}, I s hist → Runs (transfer s) tr (.returned m) →
    m.block ≤ s.count ∧
    (0 < m.block →
      I ⟨s.offset + m.block.toNat, s.count - m.block.toNat, m.buffer⟩ (hist ++ tr)) ∧
    (m.block ≤ 0 → I { s with buffer := m.buffer } (hist ++ tr) ∧
      ∃ e ∈ tr, failure e = some m.block)

section Loop

variable {transfer : Progress → IoProg Moved} {I : Progress → List (Event IoRes) → Prop}

/-- A turn ends the loop, or moves something. -/
theorem transferTurn_returned {s : Progress} {tr : List (Event IoRes)} {r : Progress ⊕ Moved}
    (h : Runs (transferTurn transfer s) tr (.returned r)) :
    s.count = 0 ∧ tr = [] ∧ r = .inr ⟨s.offset, s.buffer⟩ ∨
      0 < s.count ∧ ∃ m, Runs (transfer s) tr (.returned m) ∧
        (m.block ≤ 0 ∧ r = .inr ⟨if s.offset ≠ 0 then s.offset else m.block, m.buffer⟩ ∨
          0 < m.block ∧
            r = .inl ⟨s.offset + m.block.toNat, s.count - m.block.toNat, m.buffer⟩) := by
  unfold transferTurn at h
  by_cases hcount : 0 < s.count
  · rw [if_pos hcount] at h
    obtain ⟨m, t₁, t₂, rfl, h₁, h₂⟩ := returns_bind.mp h
    refine Or.inr ⟨hcount, m, ?_⟩
    by_cases hblock : m.block ≤ 0
    · rw [if_pos hblock] at h₂
      obtain ⟨rfl, rfl⟩ := returns_ret.mp h₂
      rw [List.append_nil]
      exact ⟨h₁, Or.inl ⟨hblock, rfl⟩⟩
    · rw [if_neg hblock] at h₂
      obtain ⟨rfl, rfl⟩ := returns_ret.mp h₂
      rw [List.append_nil]
      exact ⟨h₁, Or.inr ⟨not_le.mp hblock, rfl⟩⟩
  · rw [if_neg hcount] at h
    obtain ⟨rfl, rfl⟩ := returns_ret.mp h
    exact Or.inl ⟨Nat.eq_zero_of_not_pos hcount, rfl, rfl⟩

/-- Every turn but the last moves a byte at least. -/
theorem transferTurn_lower {s t : Progress} {tr : List (Event IoRes)}
    (h : Runs (transferTurn transfer s) tr (.returned (.inl t))) : t.count < s.count := by
  rcases transferTurn_returned h with ⟨-, -, hr⟩ | ⟨hcount, m, -, ⟨-, hr⟩ | ⟨hblock, hr⟩⟩
  · cases hr
  · cases hr
  · obtain rfl := Sum.inl.inj hr
    show s.count - m.block.toNat < s.count
    omega

theorem transferTurn_lives (h : ∀ s, Lives (transfer s)) (s : Progress) :
    Lives (transferTurn transfer s) := by
  unfold transferTurn
  by_cases hcount : 0 < s.count
  · rw [if_pos hcount]
    refine (h s).bind fun m => ?_
    show Lives (ite (m.block ≤ 0) _ _)
    by_cases hblock : m.block ≤ 0
    · rw [if_pos hblock]
      trivial
    · rw [if_neg hblock]
      trivial
  · rw [if_neg hcount]
    trivial

theorem transferLoop_length {s : Progress} {trs : List (List (Event IoRes))}
    {out : Outcome Moved} (h : LoopRuns (transferTurn transfer) s trs out) :
    trs.length ≤ s.count + 1 := by
  apply h.length_le (fun _ => True) Progress.count _ trivial
  intro s t tr _ hturn
  exact ⟨trivial, transferTurn_lower hturn⟩

theorem transferLoop_returned (hkeeps : Keeps transfer I) {s : Progress}
    {hist : List (Event IoRes)} {trs : List (List (Event IoRes))} {r : Moved}
    (h : LoopRuns (transferTurn transfer) s trs (.returned r)) (hI : I s hist) :
    ∃ last : Progress, I last (hist ++ trs.flatten) ∧
      last.offset + last.count = s.offset + s.count ∧ last.buffer = r.buffer ∧
      (last.count = 0 ∧ r.block = last.offset ∨
        0 < last.count ∧ ∃ e ∈ trs.flatten, ∃ f, failure e = some f ∧
          r.block = if last.offset ≠ 0 then (last.offset : ℤ) else f) := by
  generalize hout : Outcome.returned r = out at h
  induction h generalizing hist with
  | @next s t tr trs out hturn hs ih =>
      rcases transferTurn_returned hturn with ⟨-, -, hr⟩ | ⟨hcount, m, hm, ⟨-, hr⟩ | ⟨hblock, hr⟩⟩
      · cases hr
      · cases hr
      · obtain ⟨hle, hmoved, -⟩ := hkeeps hI hm
        obtain rfl := Sum.inl.inj hr
        obtain ⟨last, hlast, htotal, hbuffer, hend⟩ := ih (hmoved hblock) hout
        refine ⟨last, ?_, ?_, hbuffer, ?_⟩
        · rw [List.flatten_cons, ← List.append_assoc]
          exact hlast
        · change last.offset + last.count =
            s.offset + m.block.toNat + (s.count - m.block.toNat) at htotal
          omega
        · rcases hend with hdone | ⟨hleft, e, he, f, hf, hr⟩
          · exact Or.inl hdone
          · refine Or.inr ⟨hleft, e, ?_, f, hf, hr⟩
            rw [List.flatten_cons]
            exact List.mem_append_right _ he
  | @leave s r' tr hturn =>
      obtain rfl := Outcome.returned.inj hout
      rw [List.flatten_cons, List.flatten_nil, List.append_nil]
      rcases transferTurn_returned hturn with ⟨hzero, rfl, hr⟩ | ⟨hcount, m, hm, ⟨hle, hr⟩ | ⟨-, hr⟩⟩
      · obtain rfl := Sum.inr.inj hr
        rw [List.append_nil]
        exact ⟨s, hI, rfl, rfl, Or.inl ⟨hzero, rfl⟩⟩
      · obtain rfl := Sum.inr.inj hr
        obtain ⟨-, -, hfailed⟩ := hkeeps hI hm
        obtain ⟨hI', e, he, hf⟩ := hfailed hle
        exact ⟨_, hI', rfl, rfl, Or.inr ⟨hcount, e, he, _, hf, rfl⟩⟩
      · cases hr
  | died h => cases hout
  | running h => cases hout

end Loop

/-! The two loops. -/

/-- What has been written is the buffer up to `offset`. -/
structure WriteInv (buffer : Bytes) (s : Progress) (hist : List (Event IoRes)) : Prop where
  same : s.buffer = buffer
  total : s.offset + s.count = buffer.length
  written : written hist = buffer.take s.offset

/-- What has been read is in the buffer up to `offset`, and the rest of it is as it was. -/
structure ReadInv (buffer : Bytes) (s : Progress) (hist : List (Event IoRes)) : Prop where
  total : s.offset + s.count = buffer.length
  length : (received hist).length = s.offset
  same : s.buffer = received hist ++ buffer.drop s.offset

theorem writeRetry_lives (fd : ℤ) (s : Progress) : Lives (writeRetry fd s) := by
  intro r
  cases r with
  | none => trivial
  | some n => trivial

theorem readRetry_lives (fd : ℤ) (s : Progress) : Lives (readRetry fd s) := by
  intro r
  cases r with
  | none => trivial
  | some d => trivial

theorem writeRetry_keeps (fd : ℤ) (buffer : Bytes) : Keeps (writeRetry fd) (WriteInv buffer) := by
  intro s hist tr m hI h
  obtain ⟨rfl, htotal, hwritten⟩ := hI
  have hneg : (-1 : ℤ) ≤ s.count := by omega
  have hneg' : (-1 : ℤ) ≤ 0 := by omega
  obtain ⟨r, rest, rfl, hrest⟩ := returns_op_bind.mp h
  have hdata : ((s.buffer.drop s.offset).take s.count).length = s.count := by
    rw [List.length_take, List.length_drop]
    omega
  cases r with
  | none =>
      obtain ⟨rfl, rfl⟩ := returns_ret.mp hrest
      refine ⟨hneg, fun hpos => (hpos.not_ge hneg').elim, fun _ => ⟨⟨rfl, htotal, ?_⟩, _,
        List.mem_singleton_self _, rfl⟩⟩
      rw [written_append, hwritten]
      exact List.append_nil _
  | some n =>
      obtain ⟨rfl, rfl⟩ := returns_ret.mp hrest
      have hn : n.val ≤ s.count := by
        have hlt := n.isLt
        omega
      have hmore : written (hist ++ [⟨.write fd ((s.buffer.drop s.offset).take s.count), some n⟩]) =
          s.buffer.take (s.offset + n.val) := by
        rw [written_append, hwritten, List.take_add]
        show _ ++ (((s.buffer.drop s.offset).take s.count).take n.val ++ []) = _
        rw [List.append_nil, List.take_take, Nat.min_eq_left (by omega)]
      refine ⟨by show (n.val : ℤ) ≤ s.count; omega, fun _ => ⟨rfl, ?_, ?_⟩, fun hle => ?_⟩
      · show s.offset + (n.val : ℤ).toNat + (s.count - (n.val : ℤ).toNat) = s.buffer.length
        omega
      · exact hmore
      · have hzero : n.val = 0 := by
          change (n.val : ℤ) ≤ 0 at hle
          omega
        have hstay : s.offset + n.val = s.offset := by omega
        rw [hstay] at hmore
        refine ⟨⟨rfl, htotal, hmore⟩, _, List.mem_singleton_self _, ?_⟩
        show (if n.val = 0 then some (0 : ℤ) else none) = some (n.val : ℤ)
        rw [if_pos hzero, hzero]
        rfl

theorem readRetry_keeps (fd : ℤ) (buffer : Bytes) : Keeps (readRetry fd) (ReadInv buffer) := by
  intro s hist tr m hI h
  obtain ⟨htotal, hlength, hsame⟩ := hI
  have hneg : (-1 : ℤ) ≤ s.count := by omega
  have hneg' : (-1 : ℤ) ≤ 0 := by omega
  obtain ⟨r, rest, rfl, hrest⟩ := returns_op_bind.mp h
  cases r with
  | none =>
      obtain ⟨rfl, rfl⟩ := returns_ret.mp hrest
      have hnothing : received (hist ++ [⟨.read fd s.count, none⟩]) = received hist := by
        rw [received_append]
        exact List.append_nil _
      refine ⟨hneg, fun hpos => (hpos.not_ge hneg').elim, fun _ => ⟨⟨htotal, ?_, ?_⟩, _,
        List.mem_singleton_self _, rfl⟩⟩
      · rw [hnothing, hlength]
      · rw [hnothing]
        exact hsame
  | some d =>
      obtain ⟨rfl, rfl⟩ := returns_ret.mp hrest
      have hd := d.property
      have hmore : received (hist ++ [⟨.read fd s.count, some d⟩]) = received hist ++ d.val := by
        rw [received_append]
        exact congrArg (received hist ++ ·) (List.append_nil _)
      have hstored : s.buffer.take s.offset ++ d.val ++ s.buffer.drop (s.offset + d.val.length) =
          received hist ++ d.val ++ buffer.drop (s.offset + d.val.length) := by
        rw [hsame, List.take_left' hlength, ← List.drop_drop, List.drop_left' hlength,
          List.drop_drop]
      refine ⟨by show (d.val.length : ℤ) ≤ s.count; omega, fun _ => ⟨?_, ?_, ?_⟩, fun hle => ?_⟩
      · show s.offset + (d.val.length : ℤ).toNat + (s.count - (d.val.length : ℤ).toNat) = _
        omega
      · rw [hmore, List.length_append, hlength]
        rfl
      · rw [hmore]
        exact hstored
      · have hnil : d.val = [] := by
          change (d.val.length : ℤ) ≤ 0 at hle
          exact List.eq_nil_of_length_eq_zero (by omega)
        refine ⟨⟨htotal, ?_, ?_⟩, _, List.mem_singleton_self _, ?_⟩
        · rw [hmore, hnil, List.append_nil, hlength]
        · rw [hmore]
          have hstay : s.offset + d.val.length = s.offset := by rw [hnil]; rfl
          refine hstored.trans ?_
          rw [hstay]
        · show (if d.val = [] then some (0 : ℤ) else none) = some (d.val.length : ℤ)
          rw [if_pos hnil, hnil]
          rfl

/-- How much of `count` bytes was moved, and what is returned for it. -/
structure Transferred (count : ℕ) (calls : List (Event IoRes)) (k : ℕ) (ret : ℤ) : Prop where
  le : k ≤ count
  moved : 0 < k ∨ count = 0 → ret = k
  failed : k = 0 → 0 < count → (ret = 0 ∨ ret = -1) ∧ ∃ e ∈ calls, failure e = some ret
  short : k < count → ∃ e ∈ calls, ∃ f, failure e = some f

theorem transferred_of_end {count : ℕ} {calls : List (Event IoRes)} {last : Progress} {r : Moved}
    (htotal : last.offset + last.count = count)
    (hend : last.count = 0 ∧ r.block = last.offset ∨
      0 < last.count ∧ ∃ e ∈ calls, ∃ f, failure e = some f ∧
        r.block = if last.offset ≠ 0 then (last.offset : ℤ) else f) :
    Transferred count calls last.offset r.block := by
  rcases hend with ⟨hzero, hr⟩ | ⟨hleft, e, he, f, hf, hr⟩
  · refine ⟨by omega, fun _ => hr, fun hk hpos => ?_, fun hlt => ?_⟩
    · omega
    · omega
  · refine ⟨by omega, fun hmoved => ?_, fun hk _ => ?_, fun _ => ⟨e, he, f, hf⟩⟩
    · rw [hr, if_pos (by omega)]
    · rw [hr, if_neg (not_not.mpr hk)]
      exact ⟨failure_values hf, e, he, hf⟩

theorem writeLoop_transfers {fd : ℤ} {buffer : Bytes} {trs : List (List (Event IoRes))}
    {r : Moved} (h : LoopRuns (writeTurn fd) (start buffer) trs (.returned r)) :
    ∃ k, Transferred buffer.length trs.flatten k r.block ∧
      written trs.flatten = buffer.take k := by
  have hstart : WriteInv buffer (start buffer) [] := ⟨rfl, Nat.zero_add _, List.take_zero.symm⟩
  obtain ⟨last, hlast, htotal, -, hend⟩ :=
    transferLoop_returned (writeRetry_keeps fd buffer) h hstart
  exact ⟨last.offset, transferred_of_end hlast.total hend, hlast.written⟩

theorem readLoop_transfers {fd : ℤ} {buffer : Bytes} {trs : List (List (Event IoRes))}
    {r : Moved} (h : LoopRuns (readTurn fd) (start buffer) trs (.returned r)) :
    ∃ k, Transferred buffer.length trs.flatten k r.block ∧
      (received trs.flatten).length = k ∧
      r.buffer = received trs.flatten ++ buffer.drop k := by
  have hstart : ReadInv buffer (start buffer) [] := ⟨Nat.zero_add _, rfl, rfl⟩
  obtain ⟨last, hlast, htotal, hbuffer, hend⟩ :=
    transferLoop_returned (readRetry_keeps fd buffer) h hstart
  exact ⟨last.offset, transferred_of_end hlast.total hend, hlast.length,
    hbuffer.symm.trans hlast.same⟩

/-! `write_loop` as it is called elsewhere. -/

/-- The number that `write_loop` returns. -/
def returnedBy {n : ℕ} (r : Option (Fin n)) : ℤ := r.elim (-1) fun k => k.val

theorem transferTurn_done {transfer : Progress → IoProg Moved} {s : Progress} (h : s.count = 0) :
    transferTurn transfer s = .ret (.inr ⟨s.offset, s.buffer⟩) :=
  if_neg (h ▸ Nat.lt_irrefl 0)

/-- One turn of the loop for one call of `write_retry`. -/
theorem writeTurn_runs (fd : ℤ) {buffer : Bytes} {offset : ℕ} (h : offset < buffer.length)
    (r : Option (Fin ((buffer.drop offset).length + 1))) :
    Runs (writeTurn fd ⟨offset, buffer.length - offset, buffer⟩)
      [⟨.write fd (buffer.drop offset), r⟩]
      (.returned (if returnedBy r ≤ 0 then
          .inr ⟨if offset ≠ 0 then (offset : ℤ) else returnedBy r, buffer⟩
        else .inl ⟨offset + (returnedBy r).toNat, buffer.length - offset - (returnedBy r).toNat,
          buffer⟩)) := by
  have hcount : 0 < buffer.length - offset := by omega
  have hdata : (buffer.drop offset).take (buffer.length - offset) = buffer.drop offset := by
    rw [← List.length_drop, List.take_length]
  have hblock : Runs (writeRetry fd ⟨offset, buffer.length - offset, buffer⟩)
      [⟨.write fd (buffer.drop offset), r⟩] (.returned ⟨returnedBy r, buffer⟩) := by
    unfold writeRetry
    rw [hdata]
    cases r with
    | none => exact .call (.ret _)
    | some block => exact .call (.ret _)
  unfold writeTurn transferTurn
  rw [if_pos hcount]
  show Runs _ ([_] ++ []) _
  refine hblock.bind ?_
  by_cases hle : returnedBy r ≤ 0
  · rw [if_pos hle, if_pos hle]
    exact .ret _
  · rw [if_neg hle, if_neg hle]
    exact .ret _

private theorem loops_done {fd : ℤ} {buffer : Bytes} {offset : Fin (buffer.length + 1)}
    {tr : List (Event IoRes)} {r : Option (Fin (buffer.length + 1))}
    (hlast : offset.val = buffer.length)
    (h : Runs (.ret (some offset) : IoProg (Option (Fin (buffer.length + 1)))) tr (.returned r)) :
    ∃ trs, tr = trs.flatten ∧
      LoopRuns (writeTurn fd) ⟨offset.val, buffer.length - offset.val, buffer⟩ trs
        (.returned ⟨returnedBy r, buffer⟩) := by
  obtain ⟨rfl, rfl⟩ := returns_ret.mp h
  refine ⟨[[]], rfl, .leave ?_⟩
  rw [writeTurn, transferTurn_done (by rw [hlast, Nat.sub_self])]
  exact .ret _

/-- Its runs are runs of the loop. -/
theorem writeFrom_loops {fd : ℤ} {buffer : Bytes} {fuel : ℕ} {offset : Fin (buffer.length + 1)}
    {tr : List (Event IoRes)} {r : Option (Fin (buffer.length + 1))}
    (h : Runs (writeFrom fd buffer fuel offset) tr (.returned r))
    (hfuel : buffer.length ≤ offset.val + fuel) :
    ∃ trs, tr = trs.flatten ∧
      LoopRuns (writeTurn fd) ⟨offset.val, buffer.length - offset.val, buffer⟩ trs
        (.returned ⟨returnedBy r, buffer⟩) := by
  induction fuel generalizing offset tr with
  | zero =>
      have hoffset := offset.isLt
      exact loops_done (by omega) h
  | succ fuel ih =>
      rw [writeFrom] at h
      by_cases hlast : offset.val = buffer.length
      · rw [if_pos hlast] at h
        exact loops_done hlast h
      · rw [if_neg hlast] at h
        have hoffset := offset.isLt
        obtain ⟨answer, rest, rfl, hrest⟩ := returns_op_bind.mp h
        have hturn := writeTurn_runs fd (Nat.lt_of_le_of_ne (Nat.le_of_lt_succ hoffset) hlast)
          answer
        cases answer with
        | none =>
            change Runs (.ret (if offset.val ≠ 0 then some offset else none)) rest _ at hrest
            obtain ⟨rfl, rfl⟩ := returns_ret.mp hrest
            have hvalue : returnedBy (none : Option (Fin ((buffer.drop offset.val).length + 1))) =
                -1 := rfl
            rw [hvalue, if_pos (by omega)] at hturn
            refine ⟨[[_]], rfl, .leave ?_⟩
            by_cases hstart : offset.val ≠ 0
            · rw [if_pos hstart] at hturn ⊢
              exact hturn
            · rw [if_neg hstart] at hturn ⊢
              exact hturn
        | some block =>
            have hvalue : returnedBy (some block) = (block.val : ℤ) := rfl
            by_cases hzero : block.val = 0
            · change Runs (ite _ _ _) rest _ at hrest
              rw [if_pos hzero] at hrest
              obtain ⟨rfl, rfl⟩ := returns_ret.mp hrest
              rw [hvalue, hzero, if_pos (by omega)] at hturn
              refine ⟨[[_]], rfl, .leave ?_⟩
              by_cases hstart : offset.val ≠ 0
              · rw [if_pos hstart] at hturn
                exact hturn
              · rw [if_neg hstart] at hturn
                have hsame : returnedBy (some offset) = ((0 : ℕ) : ℤ) :=
                  congrArg Int.ofNat (not_not.mp hstart)
                rw [hsame]
                exact hturn
            · change Runs (ite _ _ _) rest _ at hrest
              rw [if_neg hzero] at hrest
              rw [hvalue, if_neg (by omega), Int.toNat_natCast, Nat.sub_sub] at hturn
              have hnext : buffer.length ≤ offset.val + block.val + fuel := by omega
              obtain ⟨trs, rfl, hloop⟩ := ih hrest hnext
              exact ⟨[_] :: trs, rfl, .next hturn hloop⟩

/-- Each write takes something. -/
def Progresses (fd : ℤ) (res : ℕ → (o : IoOp) → IoRes o) : Prop :=
  ∀ i data, data ≠ [] → 0 < returnedBy (res i (.write fd data))

/-- Unless a write fails, the loop gets to the end of the buffer. -/
theorem writeFrom_returns {fd : ℤ} {buffer : Bytes} {res : ℕ → (o : IoOp) → IoRes o}
    (hres : Progresses fd res) {fuel : ℕ} {offset : Fin (buffer.length + 1)}
    (hfuel : buffer.length ≤ offset.val + fuel) :
    ∃ tr, Runs (writeFrom fd buffer fuel offset) tr (.returned (some (Fin.last buffer.length))) ∧
      Answered res tr := by
  have hoffset := offset.isLt
  have hdone : offset.val = buffer.length → offset = Fin.last buffer.length := fun h => Fin.ext h
  induction fuel generalizing offset res with
  | zero =>
      rw [hdone (by omega)]
      exact ⟨[], .ret _, answered_nil res⟩
  | succ fuel ih =>
      rw [writeFrom]
      by_cases hlast : offset.val = buffer.length
      · rw [if_pos hlast, hdone hlast]
        exact ⟨[], .ret _, answered_nil res⟩
      · rw [if_neg hlast]
        have hsome : buffer.drop offset.val ≠ [] := by
          intro hnil
          have hle := List.drop_eq_nil_iff.mp hnil
          omega
        have hpos := hres 0 _ hsome
        cases hanswer : res 0 (.write fd (buffer.drop offset.val)) with
        | none =>
            rw [hanswer] at hpos
            cases hpos
        | some block =>
            rw [hanswer] at hpos
            have hblock : block.val ≠ 0 := by
              change (0 : ℤ) < block.val at hpos
              omega
            have hle := block.isLt
            have hlength := @List.length_drop UInt8 offset.val buffer
            have hnext : offset.val + block.val < buffer.length + 1 := by omega
            obtain ⟨tr, hrun, hrest⟩ := @ih (fun i => res (i + 1)) (fun i => hres (i + 1))
              ⟨offset.val + block.val, hnext⟩
              (by show buffer.length ≤ offset.val + block.val + fuel; omega) hnext
              (fun h => Fin.ext h)
            refine ⟨⟨.write fd (buffer.drop offset.val), some block⟩ :: tr, ?_, ?_⟩
            · apply Runs.call
              show Runs (ite _ _ _) tr _
              rw [if_neg hblock]
              exact hrun
            · have hcons := answered_cons (o := .write fd (buffer.drop offset.val)) hrest
              rw [hanswer] at hcons
              exact hcons

theorem xwriteAll_returns {fd : ℤ} {buffer : Bytes} {res : ℕ → (o : IoOp) → IoRes o}
    (hres : Progresses fd res) (total : ℕ) :
    ∃ tr total', Runs (expand carriedOut (xwriteAll fd buffer total)) tr (.returned total') ∧
      Answered res tr := by
  unfold xwriteAll
  by_cases hnil : buffer = []
  · rw [if_pos hnil]
    exact ⟨[], total, .ret _, answered_nil res⟩
  · rw [if_neg hnil]
    obtain ⟨tr, hrun, hanswered⟩ := @writeFrom_returns fd buffer res hres buffer.length 0 (by simp)
    refine ⟨tr, (total + buffer.length) % ulongSize, ?_, hanswered⟩
    rw [← List.append_nil tr]
    apply Runs.bind hrun
    show Runs (expand carriedOut (ite (buffer.length ≠ buffer.length) _ _)) _ _
    rw [if_neg (not_not.mpr rfl)]
    exact .ret _

/-! The theorem. -/

/-- For every buffer and all results of the calls: both loops end after a turn for each byte at
most and never otherwise than with a return, what they move is a prefix of the buffer and its
length is what they return, or the result of the call that failed; and `xwrite_all` returns when
the buffer was written, and counts it, which it does unless a write fails. -/
theorem exact_prefix_transferred (fd : ℤ) (buffer : Bytes) :
    (∀ res, ∃ trs r, LoopRuns (writeTurn fd) (start buffer) trs (.returned r) ∧
      Answered res trs.flatten) ∧
    (∀ trs out, LoopRuns (writeTurn fd) (start buffer) trs out →
      trs.length ≤ buffer.length + 1 ∧ ∀ why, out ≠ .died why) ∧
    (∀ trs r, LoopRuns (writeTurn fd) (start buffer) trs (.returned r) →
      ∃ k, Transferred buffer.length trs.flatten k r.block ∧
        written trs.flatten = buffer.take k) ∧
    (∀ res, ∃ trs r, LoopRuns (readTurn fd) (start buffer) trs (.returned r) ∧
      Answered res trs.flatten) ∧
    (∀ trs out, LoopRuns (readTurn fd) (start buffer) trs out →
      trs.length ≤ buffer.length + 1 ∧ ∀ why, out ≠ .died why) ∧
    (∀ trs r, LoopRuns (readTurn fd) (start buffer) trs (.returned r) →
      ∃ k, Transferred buffer.length trs.flatten k r.block ∧
        (received trs.flatten).length = k ∧
        r.buffer = received trs.flatten ++ buffer.drop k) ∧
    (∀ res, Progresses fd res → ∀ total, ∃ tr total',
      Runs (expand carriedOut (xwriteAll fd buffer total)) tr (.returned total') ∧
        Answered res tr) ∧
    ∀ total < ulongSize, ∀ tr total', Runs (expand carriedOut (xwriteAll fd buffer total)) tr
      (.returned total') → written tr = buffer ∧ total' = (total + buffer.length) % ulongSize := by
  have hwrite := @transferTurn_lives (writeRetry fd) (writeRetry_lives fd)
  have hread := @transferTurn_lives (readRetry fd) (readRetry_lives fd)
  refine ⟨LoopRuns.returns hwrite Progress.count transferTurn_lower (start buffer), ?_,
    fun _ _ h => writeLoop_transfers h,
    LoopRuns.returns hread Progress.count transferTurn_lower (start buffer), ?_,
    fun _ _ h => readLoop_transfers h, fun _ hres total => xwriteAll_returns hres total, ?_⟩
  · intro trs out h
    refine ⟨transferLoop_length h, ?_⟩
    rintro why rfl
    exact LoopRuns.not_died hwrite h
  · intro trs out h
    refine ⟨transferLoop_length h, ?_⟩
    rintro why rfl
    exact LoopRuns.not_died hread h
  intro total htotal tr total' h
  unfold xwriteAll at h
  by_cases hnil : buffer = []
  · rw [if_pos hnil] at h
    obtain ⟨rfl, rfl⟩ := returns_ret.mp h
    rw [hnil, List.length_nil, Nat.add_zero, Nat.mod_eq_of_lt htotal]
    exact ⟨rfl, rfl⟩
  · rw [if_neg hnil] at h
    obtain ⟨r, t₁, t₂, rfl, h₁, h₂⟩ := returns_bind.mp h
    cases r with
    | none => exact (returns_die h₂).elim
    | some n =>
        obtain ⟨trs, rfl, hloop⟩ := writeFrom_loops h₁ (Nat.le_add_left _ _)
        obtain ⟨k, hk, hwritten⟩ := writeLoop_transfers hloop
        by_cases hshort : n.val ≠ buffer.length
        · change Runs (expand carriedOut (ite _ _ _)) t₂ _ at h₂
          rw [if_pos hshort] at h₂
          exact (returns_die h₂).elim
        · change Runs (expand carriedOut (ite _ _ _)) t₂ _ at h₂
          rw [if_neg hshort] at h₂
          obtain ⟨rfl, rfl⟩ := returns_ret.mp h₂
          have hret : returnedBy (some n) = (buffer.length : ℤ) := congrArg Int.ofNat (not_not.mp hshort)
          have hpos := List.length_pos_iff.mpr hnil
          have hall : k = buffer.length := by
            by_cases hzero : k = 0
            · obtain ⟨hfailed, -⟩ := hk.failed hzero hpos
              change returnedBy (some n) = 0 ∨ returnedBy (some n) = -1 at hfailed
              omega
            · have hsame := hk.moved (Or.inl (Nat.pos_of_ne_zero hzero))
              change returnedBy (some n) = (k : ℤ) at hsame
              omega
          rw [List.append_nil, hwritten, hall, List.take_length]
          exact ⟨rfl, rfl⟩

/-! Three bytes are written, and then a call fails; two are read, and then the stream ends; and
three are written by two calls. -/

private def sampleWrites : List (List (Event IoRes)) :=
  [[⟨.write 5 [1, 2, 3, 4, 5], some 2⟩], [⟨.write 5 [3, 4, 5], some 1⟩], [⟨.write 5 [4, 5], none⟩]]

private def sampleReads : List (List (Event IoRes)) :=
  [[⟨.read 5 3, some ⟨[7, 8], by decide⟩⟩], [⟨.read 5 1, some ⟨[], by decide⟩⟩]]

private def sampleWhole : List (Event IoRes) :=
  [⟨.write 5 [1, 2, 3], some 1⟩, ⟨.write 5 [2, 3], some 2⟩]

theorem exact_prefix_transferred_sample :
    (Transferred 5 sampleWrites.flatten 3 3 ∧ written sampleWrites.flatten = [1, 2, 3]) ∧
    (Transferred 3 sampleReads.flatten 2 2 ∧ received sampleReads.flatten = [7, 8]) ∧
    written sampleWhole = [1, 2, 3] ∧ 13 = (10 + 3) % ulongSize := by
  have hwrites : LoopRuns (writeTurn 5) (start [1, 2, 3, 4, 5]) sampleWrites
      (.returned ⟨3, [1, 2, 3, 4, 5]⟩) := loopRuns_of_replayLoop rfl
  have hreads : LoopRuns (readTurn 5) (start [0, 0, 0]) sampleReads (.returned ⟨2, [7, 8, 0]⟩) :=
    loopRuns_of_replayLoop rfl
  have hwhole : Runs (expand carriedOut (xwriteAll 5 [1, 2, 3] 10)) sampleWhole (.returned 13) :=
    Prog.runs_of_replay rfl
  obtain ⟨-, -, hwritten, -⟩ := exact_prefix_transferred 5 [1, 2, 3, 4, 5]
  obtain ⟨-, -, -, -, -, hread, -⟩ := exact_prefix_transferred 5 [0, 0, 0]
  obtain ⟨-, -, -, -, -, -, -, hall⟩ := exact_prefix_transferred 5 [1, 2, 3]
  refine ⟨?_, ?_, hall 10 (by decide) _ _ hwhole⟩
  · obtain ⟨k, hk, hprefix⟩ := hwritten _ _ hwrites
    have hlength := congrArg List.length hprefix
    rw [List.length_take, Nat.min_eq_left hk.le] at hlength
    obtain rfl : k = 3 := hlength.symm
    exact ⟨hk, hprefix⟩
  · obtain ⟨k, hk, hlength, -⟩ := hread _ _ hreads
    obtain rfl : k = 2 := hlength.symm
    exact ⟨hk, rfl⟩

end HasherPriv.IoLoop.TransferLoop
