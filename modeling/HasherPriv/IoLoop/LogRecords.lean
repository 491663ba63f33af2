/- GID: HasherPriv/IoLoop/LogRecords
   layer: input and output loop
   source: io_log.c, unix.c
   digest: Which of the records sent to the log socket are printed depends on how they are read. -/

import HasherPriv.IoLoop.Log
import HasherPriv.IoLoop.Relay

set_option autoImplicit false
set_option relaxedAutoImplicit false

namespace HasherPriv.IoLoop.LogRecords

open Foundations.ByteString (Bytes)
open Foundations.Program
open Calls
open Log
open Relay (Events chunks)

/-! What is printed of one read. -/

/-- The string in what has been read; `strlen` stops at the first NUL. -/
def stringOf (data : Bytes) : Bytes := data.takeWhile (· ≠ 0)

/-- The line end that is added to a string. -/
def lineEnd (text : Bytes) : Bytes := if text ≠ [] ∧ text.getLast? ≠ some 10 then [13, 10] else []

theorem logText_eq (data : Bytes) : logText data = stringOf data ++ lineEnd (stringOf data) := by
  unfold logText stringOf lineEnd
  dsimp only
  split_ifs
  · rfl
  · rw [List.append_nil]

/-- What is written to the standard error. -/
def printed (tr : Events) : Bytes :=
  tr.flatMap fun
    | ⟨.writeAll fd data _, some n⟩ => if fd = 2 then data.take n.val else []
    | _ => []

section Calls

variable {fd : ℤ} {l : List ℤ} {total : ℕ} {tr : Events} {r : List ℤ × ℕ}

theorem quiet_of_close (h : ∀ e ∈ tr, e.1 = .close fd) : chunks fd tr = [] ∧ printed tr = [] := by
  constructor
  · apply List.filterMap_eq_nil_iff.mpr
    rintro ⟨o, x⟩ he
    obtain rfl : o = .close fd := h _ he
    rfl
  · apply List.flatMap_eq_nil_iff.mpr
    rintro ⟨o, x⟩ he
    obtain rfl : o = .close fd := h _ he
    rfl

theorem fdFree_quiet {l' : List ℤ} (h : Runs (fdFree fd l) tr (.returned l')) :
    chunks fd tr = [] ∧ printed tr = [] := by
  have huses : (fdFree fd l).Uses fun o => o = .close fd := by
    have hclose : (ioCall (.close fd)).Uses fun o => o = .close fd := ⟨rfl, fun _ => trivial⟩
    rw [fdFree, xclose]
    split_ifs
    · trivial
    · exact hclose.bind fun _ => trivial
    · trivial
  exact quiet_of_close (h.uses huses)

theorem xwriteAll_prints {text : Bytes} {n : ℕ}
    (h : Runs (xwriteAll 2 text total) tr (.returned n)) :
    chunks fd tr = [] ∧ printed tr = text := by
  rw [xwriteAll] at h
  by_cases hnil : text = []
  · rw [if_pos hnil] at h
    obtain ⟨rfl, -⟩ := returns_ret.mp h
    exact ⟨rfl, hnil.symm⟩
  · rw [if_neg hnil] at h
    obtain ⟨x, rest, rfl, hx⟩ := returns_op_bind.mp h
    cases x with
    | none => exact (returns_die hx).elim
    | some k =>
        change Runs (ite _ _ _) rest _ at hx
        by_cases hshort : k.val ≠ text.length
        · rw [if_pos hshort] at hx
          exact (returns_die hx).elim
        · rw [if_neg hshort] at hx
          obtain ⟨rfl, -⟩ := returns_ret.mp hx
          refine ⟨rfl, ?_⟩
          show text.take k.val ++ [] = text
          rw [not_not.mp hshort, List.take_length, List.append_nil]

/-- What a call of `copy_log` prints is the text of what it has read. -/
theorem copyLog_prints (h : Runs (copyLog fd l total) tr (.returned r)) :
    printed tr = (chunks fd tr).flatMap logText := by
  obtain ⟨x, rest, rfl, hx⟩ := returns_op_bind.mp h
  have hfree : ∀ {tr r}, Runs ((fdFree fd l).bind fun l => .ret (l, total)) tr (.returned r) →
      chunks fd tr = [] ∧ printed tr = [] := by
    intro tr r hrun
    obtain ⟨l', t₁, t₂, rfl, hfreed, hret⟩ := returns_bind.mp hrun
    obtain ⟨rfl, -⟩ := returns_ret.mp hret
    rw [List.append_nil]
    exact fdFree_quiet hfreed
  cases x with
  | none =>
      obtain ⟨hchunks, hprinted⟩ := hfree hx
      show printed rest = (chunks fd rest).flatMap logText
      rw [hchunks, hprinted]
      rfl
  | some d =>
      change Runs (ite _ _ _) rest _ at hx
      by_cases hnil : d.val = []
      · rw [if_pos hnil] at hx
        obtain ⟨hchunks, hprinted⟩ := hfree hx
        have hnone : chunks fd (⟨.read fd (bufsiz - 2), some d⟩ :: rest) = chunks fd rest := by
          simp [chunks, hnil]
        rw [hnone, hchunks]
        exact hprinted
      · rw [if_neg hnil] at hx
        obtain ⟨n, t₁, t₂, rfl, hwrite, hret⟩ := returns_bind.mp hx
        obtain ⟨rfl, -⟩ := returns_ret.mp hret
        rw [List.append_nil]
        obtain ⟨hchunks, hprinted⟩ := @xwriteAll_prints fd _ _ _ _ hwrite
        have hone : chunks fd (⟨.read fd (bufsiz - 2), some d⟩ :: t₁) = d.val :: chunks fd t₁ := by
          simp [chunks, hnil]
        rw [hone, hchunks, List.flatMap_singleton]
        exact hprinted

end Calls

/-! A connection. -/

/-- Calls of `copy_log` for a connection; in between the list and the counter may change. -/
def Session (fd : ℤ) (calls : List Events) : Prop :=
  ∀ tr ∈ calls, ∃ l total r, Runs (copyLog fd l total) tr (.returned r)

/-- What the reads from the connection have brought. -/
def brought (fd : ℤ) (calls : List Events) : List Bytes := calls.flatMap (chunks fd)

theorem Session.prints {fd : ℤ} {calls : List Events} (h : Session fd calls) :
    calls.flatMap printed = (brought fd calls).flatMap logText := by
  induction calls with
  | nil => rfl
  | cons tr calls ih =>
      obtain ⟨⟨l, total, r, hrun⟩, hcalls⟩ := List.forall_mem_cons.mp h
      have hbrought : brought fd (tr :: calls) = chunks fd tr ++ brought fd calls := rfl
      rw [List.flatMap_cons, copyLog_prints hrun, ih hcalls, hbrought, List.flatMap_append]

/-- The reads of the connection bring these messages, each with its NUL. -/
structure Sent (messages : List Bytes) (fd : ℤ) (calls : List Events) : Prop where
  nulFree : ∀ m ∈ messages, 0 ∉ m
  session : Session fd calls
  stream : (brought fd calls).flatten = messages.flatMap (· ++ [0])

/-- Every byte of the messages is printed, once and in order, and nothing else but line ends. -/
structure Complete (messages : List Bytes) (fd : ℤ) (calls : List Events) : Prop where
  lines : calls.flatMap printed =
    (brought fd calls).flatMap fun d => stringOf d ++ lineEnd (stringOf d)
  bytes : (brought fd calls).flatMap stringOf = messages.flatten

/-- Nothing but NULs comes after the first one. -/
def OnlyNulsLeft (data : Bytes) : Prop := ∀ b ∈ data.dropWhile (· ≠ 0), b = 0

/-! Every grouping of the bytes occurs. -/

private def readCall (fd : ℤ) (d : { d : Bytes // d.length ≤ bufsiz - 2 }) : Events :=
  ⟨.read fd (bufsiz - 2), some d⟩ ::
    if logText d.val = [] then []
    else [⟨.writeAll 2 (logText d.val) 0, some (Fin.last (logText d.val).length)⟩]

private theorem readCall_runs (fd : ℤ) (d : { d : Bytes // d.length ≤ bufsiz - 2 })
    (hd : d.val ≠ []) : ∃ r, Runs (copyLog fd [fd] 0) (readCall fd d) (.returned r) := by
  have hwrite : ∃ n, Runs (xwriteAll 2 (logText d.val) 0) (if logText d.val = [] then []
      else [⟨.writeAll 2 (logText d.val) 0, some (Fin.last (logText d.val).length)⟩])
      (.returned n) := by
    rw [xwriteAll]
    by_cases hnil : logText d.val = []
    · rw [if_pos hnil, if_pos hnil]
      exact ⟨0, .ret 0⟩
    · rw [if_neg hnil, if_neg hnil]
      refine ⟨(0 + (logText d.val).length) % ulongSize, .call ?_⟩
      change Runs (ite _ _ _) _ _
      rw [if_neg (not_not.mpr (Fin.val_last _))]
      exact .ret _
  obtain ⟨n, hwrite⟩ := hwrite
  refine ⟨([fd], n), .call ?_⟩
  change Runs (ite _ _ _) _ _
  rw [if_neg hd]
  exact returns_bind.mpr ⟨n, _, [], (List.append_nil _).symm, hwrite, .ret _⟩

private theorem readCall_chunks (fd : ℤ) (d : { d : Bytes // d.length ≤ bufsiz - 2 })
    (hd : d.val ≠ []) : chunks fd (readCall fd d) = [d.val] := by
  unfold readCall
  split_ifs
  · simp [chunks, hd]
  · simp [chunks, hd]

/-- For every sequence of reads there is a connection that is read so. -/
theorem every_grouping_occurs (fd : ℤ) (reads : List Bytes)
    (h : ∀ d ∈ reads, d ≠ [] ∧ d.length ≤ bufsiz - 2) :
    ∃ calls, Session fd calls ∧ brought fd calls = reads := by
  induction reads with
  | nil =>
      refine ⟨[], ?_, rfl⟩
      intro tr htr
      cases htr
  | cons d reads ih =>
      obtain ⟨⟨hd, hle⟩, hreads⟩ := List.forall_mem_cons.mp h
      obtain ⟨calls, hsession, hbrought⟩ := ih hreads
      obtain ⟨r, hrun⟩ := readCall_runs fd ⟨d, hle⟩ hd
      refine ⟨readCall fd ⟨d, hle⟩ :: calls, ?_, ?_⟩
      · exact List.forall_mem_cons.mpr ⟨⟨[fd], 0, r, hrun⟩, hsession⟩
      · have hcons : brought fd (readCall fd ⟨d, hle⟩ :: calls) =
            chunks fd (readCall fd ⟨d, hle⟩) ++ brought fd calls := rfl
        rw [hcons, readCall_chunks fd ⟨d, hle⟩ hd, hbrought]
        rfl

/-! What is lost. -/

theorem filter_eq (data : Bytes) :
    data.filter (· ≠ 0) = stringOf data ++ (data.dropWhile (· ≠ 0)).filter (· ≠ 0) := by
  have hstring : (stringOf data).filter (· ≠ 0) = stringOf data := by
    apply List.filter_eq_self.mpr
    intro b hb
    exact List.mem_takeWhile_imp (p := fun b : UInt8 => decide (b ≠ 0)) (l := data) hb
  conv_lhs => rw [← List.takeWhile_append_dropWhile (p := (· ≠ 0)) (l := data)]
  rw [List.filter_append]
  exact congrArg (· ++ _) hstring

/-- The string is all of the text if and only if only NULs come after it. -/
theorem stringOf_eq_filter_iff {data : Bytes} :
    stringOf data = data.filter (· ≠ 0) ↔ OnlyNulsLeft data := by
  rw [filter_eq]
  constructor
  · intro h b hb
    have hnil := List.self_eq_append_right.mp h
    have hb' := List.filter_eq_nil_iff.mp hnil b hb
    simpa using hb'
  · intro h
    have hnil : (data.dropWhile (· ≠ 0)).filter (· ≠ 0) = [] := by
      apply List.filter_eq_nil_iff.mpr
      intro b hb
      simpa using h b hb
    rw [hnil, List.append_nil]

/-- Shorter pieces are the same as longer ones only if each of them is. -/
theorem flatMap_eq_iff {α β : Type} {f g : α → List β} (h : ∀ a, (f a).length ≤ (g a).length)
    (l : List α) : l.flatMap f = l.flatMap g ↔ ∀ a ∈ l, f a = g a := by
  have hall : ∀ l : List α, (l.flatMap f).length ≤ (l.flatMap g).length := by
    intro l
    induction l with
    | nil => exact le_rfl
    | cons a l ih =>
        rw [List.flatMap_cons, List.flatMap_cons, List.length_append, List.length_append]
        have ha := h a
        omega
  induction l with
  | nil => simp
  | cons a l ih =>
      rw [List.flatMap_cons, List.flatMap_cons, List.forall_mem_cons]
      constructor
      · intro heq
        have hlength := congrArg List.length heq
        rw [List.length_append, List.length_append] at hlength
        have ha := h a
        have hl := hall l
        obtain ⟨hhead, htail⟩ := List.append_inj heq (by omega)
        exact ⟨hhead, ih.mp htail⟩
      · rintro ⟨hhead, htail⟩
        rw [hhead, ih.mpr htail]

theorem filter_sent {messages : List Bytes} (h : ∀ m ∈ messages, 0 ∉ m) :
    (messages.flatMap (· ++ [0])).filter (· ≠ 0) = messages.flatten := by
  induction messages with
  | nil => rfl
  | cons m messages ih =>
      obtain ⟨hm, hmessages⟩ := List.forall_mem_cons.mp h
      have hself : m.filter (· ≠ 0) = m := by
        apply List.filter_eq_self.mpr
        intro b hb
        have hne : b ≠ 0 := by
          rintro rfl
          exact hm hb
        simpa using hne
      have hnul : ([0] : Bytes).filter (· ≠ 0) = [] := by simp
      rw [List.flatMap_cons, List.filter_append, List.filter_append, ih hmessages, hself, hnul,
        List.append_nil, List.flatten_cons]

/-- Of the messages sent on one connection to the log socket no byte is lost if and only if nothing
but NULs comes after the first NUL of each read. -/
theorem log_records_kept_iff {messages : List Bytes} {fd : ℤ} {calls : List Events}
    (h : Sent messages fd calls) :
    Complete messages fd calls ↔ ∀ d ∈ brought fd calls, OnlyNulsLeft d := by
  have hlines : calls.flatMap printed =
      (brought fd calls).flatMap fun d => stringOf d ++ lineEnd (stringOf d) := by
    rw [h.session.prints]
    exact congrArg (List.flatMap · _) (funext logText_eq)
  have hsent : (brought fd calls).flatMap (fun d => d.filter (· ≠ 0)) = messages.flatten := by
    rw [← filter_sent h.nulFree, ← h.stream, List.filter_flatten, List.flatMap_def]
  have hshorter : ∀ d : Bytes, (stringOf d).length ≤ (d.filter (· ≠ 0)).length := by
    intro d
    rw [filter_eq, List.length_append]
    omega
  constructor
  · intro hcomplete d hd
    have hsame := hcomplete.bytes.trans hsent.symm
    exact stringOf_eq_filter_iff.mp ((flatMap_eq_iff hshorter _).mp hsame d hd)
  · intro honly
    refine ⟨hlines, ?_⟩
    rw [← hsent]
    apply (flatMap_eq_iff hshorter _).mpr
    intro d hd
    exact stringOf_eq_filter_iff.mpr (honly d hd)

/-- One read for each of two records. -/
theorem log_records_kept_iff_sample : ∃ calls, brought 7 calls = [[97, 0], [98, 0]] ∧
    Complete [[97], [98]] 7 calls := by
  obtain ⟨calls, hsession, hbrought⟩ := every_grouping_occurs 7 [[97, 0], [98, 0]] (by decide)
  have hsent : Sent [[97], [98]] 7 calls := by
    refine ⟨by decide, hsession, ?_⟩
    rw [hbrought]
    rfl
  refine ⟨calls, hbrought, (log_records_kept_iff hsent).mpr ?_⟩
  rw [hbrought]
  intro d hd b hb
  rcases List.mem_cons.mp hd with rfl | hd
  · exact List.mem_singleton.mp hb
  · obtain rfl := List.mem_singleton.mp hd
    exact List.mem_singleton.mp hb

/-! Two records that come with one read. -/

/-- No record is ever lost. -/
def NoRecordLost : Prop :=
  ∀ (messages : List Bytes) (fd : ℤ) (calls : List Events),
    Sent messages fd calls → Complete messages fd calls

/-- The second of them is not printed. -/
theorem second_record_lost : ¬ NoRecordLost := by
  intro hkept
  obtain ⟨calls, hsession, hbrought⟩ := every_grouping_occurs 7 [[97, 0, 98, 0]] (by decide)
  have hsent : Sent [[97], [98]] 7 calls := by
    refine ⟨by decide, hsession, ?_⟩
    rw [hbrought]
    rfl
  have hbytes := (hkept _ _ _ hsent).bytes
  rw [hbrought] at hbytes
  revert hbytes
  decide

end HasherPriv.IoLoop.LogRecords
